import CaseGen.Main
import CaseGen.Target.Session
import CaseGen.Proofs.DataFile.Reading
import CaseGen.Proofs.DataFile.Leftovers
import CaseGen.Proofs.DataFile.Units
import CaseGen.Proofs.Suite.Orders
import CaseGen.Proofs.Target.Enumeration
import CaseGen.Proofs.Target.Stability
import CaseGen.Proofs.Target.Numbering
import CaseGen.Proofs.Command.Listing
import CaseGen.Proofs.Command.History
import CaseGen.Proofs.DataFile.PlainReading
import CaseGen.Proofs.Suite.Eagerness
import CaseGen.Proofs.Command.Repeats
import CaseGen.Proofs.TestCase.Building
import CaseGen.Proofs.ConstantTime.Comparison
import CaseGen.Proofs.Text.Hex
import CaseGen.Proofs.ConstantTime.Reading
import CaseGen.Proofs.Suite.Laziness
import CaseGen.Proofs.Command.Reporting
import CaseGen.Proofs.Command.Normalizing
import CaseGen.Proofs.Options
import CaseGen.Proofs.ConstantTime.Sizes
import CaseGen.Proofs.Names
import CaseGen.Proofs.ConstantTime.Pattern
