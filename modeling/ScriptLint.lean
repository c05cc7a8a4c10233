import ScriptLint.Config
import ScriptLint.Host
import ScriptLint.Proofs.Embedding
import ScriptLint.Proofs.Grammar
import ScriptLint.Proofs.Lookup
import ScriptLint.Proofs.Sharing
import ScriptLint.Workspace
import ScriptLint.Proofs.Activation
import ScriptLint.Proofs.Resolution
import ScriptLint.Proofs.Laminar
import ScriptLint.Proofs.Pointing
import ScriptLint.Proofs.Strings
import ScriptLint.Proofs.Locality
import ScriptLint.Proofs.LineBreaks
import ScriptLint.Proofs.Unmatched
import ScriptLint.Proofs.Interning
import ScriptLint.Proofs.LocaleTables
import ScriptLint.Proofs.Refusals
import ScriptLint.Proofs.Closest
import ScriptLint.Proofs.Tags
import ScriptLint.Proofs.Characters
import ScriptLint.Proofs.ByteClasses
import ScriptLint.Proofs.Settings
import ScriptLint.Proofs.Nesting
