import Jspp.Compiler.Comments
import Jspp.Compiler.Decode
import Jspp.Compiler.Lexeme
import Jspp.Compiler.Lines
import Jspp.Compiler.Returns
import Jspp.Kernel.Locals
import Jspp.Kernel.Operators
import Jspp.Kernel.Runs
import Jspp.Kernel.Signatures
import Jspp.Kernel.Compound
import Jspp.Splc.Agreement
import Jspp.Splc.Bindings
import Jspp.Splc.Bodies
import Jspp.Splc.Arguments
import Jspp.Splc.Cache
import Jspp.Splc.Entries
import Jspp.Splc.Encoding
import Jspp.Splc.Grants
import Jspp.Splc.Logons
import Jspp.Splc.Positions
import Jspp.Splc.Procedures
import Jspp.Splc.Reach
import Jspp.Splc.References
import Jspp.Splc.TableMap
import Jspp.Splc.Truth
import Jspp.Sql.Columns
import Jspp.Sql.Operators
import Jspp.Sql.Placeholders
import Jspp.Theory.Placed
import Jspp.Kernel.Targets
import Jspp.Kernel.Basecalls
import Jspp.Kernel.Switches
import Jspp.Kernel.Finally
import Jspp.Theory.Box
import Jspp.Kernel.Compare
import Jspp.Kernel.Arrays
import Jspp.Kernel.Vectors
import Jspp.Kernel.Casts
import Jspp.Kernel.Retvals
import Jspp.Kernel.Literals
import Jspp.Compiler.Declarators
import Jspp.Kernel.Constructs
import Jspp.Sql.Rejected
import Jspp.Sql.Lists
import Jspp.Sql.Updates
import Jspp.Sql.Separated
import Jspp.Sql.Conditions
import Jspp.Sql.Through
import Jspp.Sql.Composed
import Jspp.Kernel.Programs
import Jspp.Kernel.Vtables
import Jspp.Kernel.Alike
import Jspp.Theory.Numeral
import Jspp.Theory.Block
import Jspp.Compiler.Messages
import Jspp.Splc.Conversions
import Jspp.Splc.Markup
import Jspp.Splc.Scaled
import Jspp.Splc.Splitting
import Jspp.Splc.Vec
import Jspp.Kernel.Recursion
