import TokenRules.Json.Canonical
import TokenRules.Proofs.Ini.Endings
import TokenRules.Proofs.Ini.Writing
import TokenRules.Proofs.Json.Culprit
import TokenRules.Proofs.Json.Decoding
import TokenRules.Proofs.Json.Encoding
import TokenRules.Proofs.Json.Layout
import TokenRules.Proofs.Json.OpenBrackets
import TokenRules.Proofs.Json.PendingName
import TokenRules.Proofs.Json.Sharing
import TokenRules.Proofs.Json.Unambiguous
import TokenRules.Proofs.Json.Viable
import TokenRules.Proofs.Scan.Consistent
import TokenRules.Proofs.Scan.Declared
import TokenRules.Proofs.Scan.FailedCall
import TokenRules.Proofs.Scan.Frozen
import TokenRules.Proofs.Scan.Iterations
import TokenRules.Proofs.Scan.Refusal
