import OfficeMath.Convert
import OfficeMath.Proofs.Annotation
import OfficeMath.Proofs.Convert
import OfficeMath.Proofs.Equation.DocumentOrder
import OfficeMath.Proofs.Equation.Erasure
import OfficeMath.Proofs.Equation.Outline
import OfficeMath.Proofs.Equation.Qualification
import OfficeMath.Proofs.Equation.RunStyle
import OfficeMath.Proofs.Equation.Unrecognized
import OfficeMath.Proofs.Excerpt
import OfficeMath.Proofs.Latex.SpecialByte
import OfficeMath.Proofs.Latex.Token
import OfficeMath.Proofs.Latex.Unescape
import OfficeMath.Proofs.Store.Application
import OfficeMath.Proofs.Store.DocumentOrder
import OfficeMath.Proofs.Store.FenceKept
import OfficeMath.Proofs.Store.GrowingFence
import OfficeMath.Proofs.Store.Parts
import OfficeMath.Proofs.Store.Room
import OfficeMath.Proofs.Store.Segmentation
import OfficeMath.Proofs.Typeset.Columns
import OfficeMath.Proofs.Typeset.Degree
import OfficeMath.Proofs.Typeset.IdleProperty
import OfficeMath.Proofs.Typeset.Lexical
import OfficeMath.Proofs.Typeset.Locality
import OfficeMath.Proofs.Typeset.Lookup
import OfficeMath.Proofs.Typeset.OpenArray
import OfficeMath.Proofs.Typeset.SplitRun
import OfficeMath.Proofs.Typeset.Underscore
import OfficeMath.Proofs.Xml.Continuation
import OfficeMath.Proofs.Xml.DepthLimit
import OfficeMath.Proofs.Xml.OpenTags
import OfficeMath.Proofs.Xml.ReadBack
import OfficeMath.Proofs.Typeset.Replacement
