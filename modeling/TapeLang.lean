import TapeLang.Error.Raise
import TapeLang.Main
import TapeLang.Proofs.CommandLine.Printing
import TapeLang.Proofs.CommandLine.StepLimit
import TapeLang.Proofs.Machine.Errors
import TapeLang.Proofs.Machine.Flat
import TapeLang.Proofs.Machine.Moves
import TapeLang.Proofs.Machine.Reads
import TapeLang.Proofs.Machine.Unentered
import TapeLang.Proofs.Machine.Unrolling
import TapeLang.Proofs.Program.Concatenation
import TapeLang.Proofs.Program.Measures
import TapeLang.Proofs.Program.Term
import TapeLang.Proofs.Samples.Rot13
