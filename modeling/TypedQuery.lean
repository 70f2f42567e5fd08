import TypedQuery.Validation.Rule
import TypedQuery.Schema.Inspect
import TypedQuery.Introspection.Decode
import TypedQuery.Proofs.Schema.Built
import TypedQuery.Proofs.Schema.Resolve
import TypedQuery.Proofs.Coercion.Cases
import TypedQuery.Proofs.Coercion.Conforms
import TypedQuery.Proofs.Coercion.Position
import TypedQuery.Proofs.Coercion.Soundness
import TypedQuery.Proofs.Coercion.Agreement
import TypedQuery.Proofs.Coercion.Moving
import TypedQuery.Proofs.Walk.Fields
import TypedQuery.Proofs.Validation.Defaults
import TypedQuery.Proofs.Walk.Endings
import TypedQuery.Proofs.Schema.References
import TypedQuery.Proofs.Schema.Registration
import TypedQuery.Proofs.Coercion.Failures
import TypedQuery.Proofs.Validation.Accepted
import TypedQuery.Proofs.Walk.Outline
import TypedQuery.Proofs.Walk.Places
import TypedQuery.Proofs.Coercion.Readings
import TypedQuery.Proofs.Coercion.Raising
import TypedQuery.Proofs.Coercion.Nesting
import TypedQuery.Proofs.Coercion.Unlimited
import TypedQuery.Proofs.Coercion.Levels
import TypedQuery.Proofs.Coercion.Hosting
import TypedQuery.Proofs.Coercion.Paths
import TypedQuery.Proofs.Walk.Inputs
import TypedQuery.Proofs.Introspection.Closure
import TypedQuery.Proofs.Schema.Loading
import TypedQuery.Proofs.Introspection.Relations
import TypedQuery.Proofs.Schema.Reordering
import TypedQuery.Proofs.Schema.Extension
import TypedQuery.Proofs.Decimal.Digits
import TypedQuery.Proofs.Decimal.Doubles
import TypedQuery.Proofs.Decimal.Interval
import TypedQuery.Proofs.Decimal.Rounding
import TypedQuery.Proofs.Decimal.Bits
import TypedQuery.Proofs.Decimal.ReadBack
import TypedQuery.Proofs.Syntax.Scanning
import TypedQuery.Proofs.Syntax.Quoting
import TypedQuery.Proofs.Syntax.Spelling
import TypedQuery.Proofs.Syntax.Reading
import TypedQuery.Proofs.Syntax.Balance
import TypedQuery.Proofs.Syntax.Defaults
import TypedQuery.Proofs.Introspection.DefaultTexts
import TypedQuery.Proofs.Introspection.Declared
import TypedQuery.Proofs.Validation.Plans
import TypedQuery.Proofs.Coercion.Mentioned
import TypedQuery.Proofs.Json.ReadBack
import TypedQuery.Proofs.Json.Records
import TypedQuery.Proofs.Introspection.Serialization
import TypedQuery.Proofs.Coercion.Keys
import TypedQuery.Proofs.Coercion.Leaves
import TypedQuery.Proofs.Coercion.Idempotence
import TypedQuery.Proofs.Walk.Limits
import TypedQuery.Proofs.Schema.Bindings
import TypedQuery.Proofs.Coercion.Declarations
import TypedQuery.Proofs.Json.Numerals
import TypedQuery.Proofs.Json.Lossless
import TypedQuery.Proofs.Decimal.Widening
import TypedQuery.Proofs.Coercion.Apart
import TypedQuery.Proofs.Introspection.Layers
import TypedQuery.Proofs.Walk.Steps
import TypedQuery.Proofs.Walk.Namespaces
