import StackCode.Main
import StackCode.SourceText
import StackCode.Proofs.Answers
import StackCode.Proofs.BufferedInstructions
import StackCode.Proofs.CommandEffects
import StackCode.Proofs.Countdown
import StackCode.Proofs.DebuggerLog
import StackCode.Proofs.Dialogues
import StackCode.Proofs.DraftInvariant
import StackCode.Proofs.ExitStatus
import StackCode.Proofs.Failures
import StackCode.Proofs.ForwardPrograms
import StackCode.Proofs.ImageDefects
import StackCode.Proofs.LabelReferences
import StackCode.Proofs.LabelRenaming
import StackCode.Proofs.LaterLines
import StackCode.Proofs.LineGrammar
import StackCode.Proofs.Lines
import StackCode.Proofs.Linking
import StackCode.Proofs.Listings
import StackCode.Proofs.LiteralValues
import StackCode.Proofs.MachineInvariant
import StackCode.Proofs.MissingLabels
import StackCode.Proofs.PrintedStrings
import StackCode.Proofs.PushableTexts
import StackCode.Proofs.PushedStrings
import StackCode.Proofs.Resumption
import StackCode.Proofs.RoundTrip
import StackCode.Proofs.SavedPrograms
import StackCode.Proofs.SharedAddresses
import StackCode.Proofs.SourceLayout
import StackCode.Proofs.StackLocality
import StackCode.Proofs.StringBodies
import StackCode.Proofs.WordArithmetic
