import SignatureAutomata.Alphabet
import SignatureAutomata.Ascending
import SignatureAutomata.Code
import SignatureAutomata.Compilation
import SignatureAutomata.Decimal.Binary64
import SignatureAutomata.Decimal.Integer
import SignatureAutomata.Decimal.Shortest
import SignatureAutomata.Dfa
import SignatureAutomata.Dfa.Determinization
import SignatureAutomata.Error
import SignatureAutomata.Exploration
import SignatureAutomata.Json.Failure
import SignatureAutomata.Json.Number
import SignatureAutomata.Json.Quoted
import SignatureAutomata.Json.Reader
import SignatureAutomata.Json.Value
import SignatureAutomata.Json.Written
import SignatureAutomata.Loading
import SignatureAutomata.Matcher
import SignatureAutomata.Matcher.Json
import SignatureAutomata.Matlab.Options
import SignatureAutomata.Matlab.Options.Json
import SignatureAutomata.Matlab.Source
import SignatureAutomata.Nfa
import SignatureAutomata.Nfa.Closure
import SignatureAutomata.Nfa.Construction
import SignatureAutomata.Nfa.EdgeMap
import SignatureAutomata.Nfa.Path
import SignatureAutomata.Nfa.Simulation
import SignatureAutomata.Nfa.Text
import SignatureAutomata.Record
import SignatureAutomata.Signature
import SignatureAutomata.Signature.Automaton
import SignatureAutomata.Signature.Json
import SignatureAutomata.Signature.Text
import SignatureAutomata.Signature.Wiring
import SignatureAutomata.StateSet
import SignatureAutomata.StateSet.Family
import SignatureAutomata.Symbol
import SignatureAutomata.Text.Blank
import SignatureAutomata.Text.CodePoints
import SignatureAutomata.Text.Printable
import SignatureAutomata.Text.Quoted
import SignatureAutomata.Proofs.Exploration
import SignatureAutomata.Proofs.Nfa.Call
import SignatureAutomata.Proofs.Nfa.Closure
import SignatureAutomata.Proofs.Nfa.Construction
import SignatureAutomata.Proofs.Nfa.Simulation
import SignatureAutomata.Proofs.Nfa.Counting
import SignatureAutomata.Proofs.Alphabet
import SignatureAutomata.Proofs.Dfa.Determinization
import SignatureAutomata.Proofs.Dfa.Acceptance
import SignatureAutomata.Proofs.Matcher.Emission
import SignatureAutomata.Proofs.Signature.Automaton
import SignatureAutomata.Proofs.Signature.Language
import SignatureAutomata.Proofs.Signature.Wiring
import SignatureAutomata.Proofs.Nfa.Path
import SignatureAutomata.Proofs.Json.Reading
import SignatureAutomata.Proofs.Json.Value
import SignatureAutomata.Proofs.Matcher.Run
import SignatureAutomata.Proofs.Matcher.Json
import SignatureAutomata.Proofs.Matlab.Program
import SignatureAutomata.Proofs.Matlab.Capacity
import SignatureAutomata.Proofs.Matlab.Source
import SignatureAutomata.Proofs.Alphabet.Registration
import SignatureAutomata.Proofs.Nfa.Caching
import SignatureAutomata.Proofs.Nfa.SameGraph
import SignatureAutomata.Proofs.Nfa.Refusal
import SignatureAutomata.Proofs.Matlab.Words
import SignatureAutomata.Proofs.Matlab.Hygiene
import SignatureAutomata.Proofs.Nfa.Emptiness
import SignatureAutomata.Proofs.Dfa.Emptiness
import SignatureAutomata.Proofs.Signature.Agreement
import SignatureAutomata.Proofs.Matlab.CharacterVector
import SignatureAutomata.Proofs.Exploration.Discovery
import SignatureAutomata.Proofs.Dfa.Numbering
import SignatureAutomata.Proofs.Exploration.Queue
import SignatureAutomata.Proofs.Dfa.Worklist
import SignatureAutomata.Proofs.Nfa.ConstructionOrder
import SignatureAutomata.Proofs.Signature.Fragments
import SignatureAutomata.Proofs.Matcher.Unregistered
import SignatureAutomata.Proofs.Matlab.Recovery
import SignatureAutomata.Proofs.Json.Grammar
import SignatureAutomata.Proofs.Json.Layout
import SignatureAutomata.Proofs.Json.Spelling
import SignatureAutomata.Proofs.Json.Passing
import SignatureAutomata.Proofs.Json.Extent
import SignatureAutomata.Proofs.Json.Members
import SignatureAutomata.Proofs.Matcher.Fields
import SignatureAutomata.Proofs.Matcher.Layout
import SignatureAutomata.Proofs.Matlab.Options
import SignatureAutomata.Proofs.Signature.Json
import SignatureAutomata.Proofs.Traversal
import SignatureAutomata.Proofs.Text.Blank
import SignatureAutomata.Proofs.Decimal.Integer
import SignatureAutomata.Proofs.Signature.Text
import SignatureAutomata.Proofs.Signature.Display
import SignatureAutomata.Proofs.Signature.SingleValues
import SignatureAutomata.Proofs.Nfa.ClosureLaws
import SignatureAutomata.Proofs.StateSet.FixedBits
import SignatureAutomata.Proofs.StateSet.Family
import SignatureAutomata.Proofs.Compilation.Records
