import UntypedLambda.Main
import UntypedLambda.Text.Quoted
import UntypedLambda.Proofs.Iteration
import UntypedLambda.Proofs.Nameless.Basic
import UntypedLambda.Proofs.Nameless.Substitution
import UntypedLambda.Proofs.Nameless.Contraction
import UntypedLambda.Proofs.Nameless.Parallel
import UntypedLambda.Proofs.Nameless.Eta
import UntypedLambda.Proofs.Nameless.NormalOrder
import UntypedLambda.Proofs.Nameless.EtaNormal
import UntypedLambda.Proofs.Surface.Occurrences
import UntypedLambda.Proofs.Surface.Grammar
import UntypedLambda.Proofs.Surface.Scanning
import UntypedLambda.Proofs.Term.Identities
import UntypedLambda.Proofs.Term.Reading
import UntypedLambda.Proofs.Term.Equality
import UntypedLambda.Proofs.Term.Capture
import UntypedLambda.Proofs.Term.FreeNames
import UntypedLambda.Proofs.Term.AlphaEquivalence
import UntypedLambda.Proofs.Term.Contraction
import UntypedLambda.Proofs.Term.Outermost
import UntypedLambda.Proofs.Term.Run
import UntypedLambda.Proofs.Term.Conversion
import UntypedLambda.Proofs.Term.Normalization
import UntypedLambda.Proofs.Term.Naming
import UntypedLambda.Proofs.Term.Spelling
import UntypedLambda.Proofs.Term.Reissue
import UntypedLambda.Proofs.Term.RoundTrip
import UntypedLambda.Proofs.Encoding.Nameless
import UntypedLambda.Proofs.Encoding.Reading
import UntypedLambda.Proofs.Encoding.Decoding
import UntypedLambda.Proofs.Resolution.Scope
import UntypedLambda.Proofs.Term.Minted
import UntypedLambda.Proofs.Encoding.Identities
import UntypedLambda.Proofs.Resolution.Identities
import UntypedLambda.Proofs.Resolution.Undefined
import UntypedLambda.Proofs.Resolution.Translation
import UntypedLambda.Proofs.Encoding.FixedPoint
import UntypedLambda.Proofs.Term.Lifting
import UntypedLambda.Proofs.Resolution.Definition
import UntypedLambda.Proofs.Term.Clean
import UntypedLambda.Proofs.Term.Iterates
import UntypedLambda.Proofs.Term.HeadOrder
import UntypedLambda.Proofs.Term.EtaReduction
import UntypedLambda.Proofs.Term.Phases
import UntypedLambda.Proofs.Session.History
import UntypedLambda.Proofs.Session.Comparison
import UntypedLambda.Proofs.Session.Identities
import UntypedLambda.Proofs.Surface.Derivation
import UntypedLambda.Proofs.Surface.Program
import UntypedLambda.Proofs.Surface.Bare
import UntypedLambda.Proofs.Surface.Writable
import UntypedLambda.Proofs.Surface.Printing
import UntypedLambda.Proofs.Matching.Term
import UntypedLambda.Proofs.Matching.Relabel
import UntypedLambda.Proofs.Term.Stepwise
import UntypedLambda.Proofs.Matching.Text
import UntypedLambda.Proofs.Matching.Resolution
import UntypedLambda.Proofs.Matching.Session
import UntypedLambda.Proofs.Session.Supply
import UntypedLambda.Proofs.Session.Relabeling
import UntypedLambda.Proofs.Resolution.Bare
import UntypedLambda.Proofs.Session.Statements
import UntypedLambda.Proofs.Resolution.Closed
import UntypedLambda.Proofs.Session.Closed
import UntypedLambda.Proofs.Encoding.Application
import UntypedLambda.Proofs.Prelude.Loading
import UntypedLambda.Proofs.Term.Redexes
import UntypedLambda.Proofs.Term.Resumption
import UntypedLambda.Proofs.Term.Completion
import UntypedLambda.Proofs.Prelude.Reduction
import UntypedLambda.Proofs.Prelude.Arithmetic
import UntypedLambda.Proofs.Prelude.Lists
import UntypedLambda.Proofs.Prelude.Recursion
import UntypedLambda.Proofs.Encoding.Contraction
import UntypedLambda.Proofs.Encoding.Literal
import UntypedLambda.Proofs.Encoding.Readback
import UntypedLambda.Proofs.Surface.Viable
import UntypedLambda.Proofs.Surface.Lexemes
import UntypedLambda.Proofs.Surface.Places
import UntypedLambda.Proofs.Surface.Tokenization
import UntypedLambda.Proofs.Surface.Relocation
import UntypedLambda.Proofs.Surface.Joining
import UntypedLambda.Proofs.Surface.Nodes
import UntypedLambda.Proofs.Surface.Mistakes
import UntypedLambda.Proofs.Surface.Spacing
import UntypedLambda.Proofs.Surface.SourceOrder
import UntypedLambda.Proofs.Settings
import UntypedLambda.Proofs.Resolution.Refusal
import UntypedLambda.Proofs.Term.Suffixes
import UntypedLambda.Proofs.Resolution.SelfReference
import UntypedLambda.Proofs.Term.Occurrences
import UntypedLambda.Proofs.Shell.Inputs
