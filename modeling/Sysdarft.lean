import Sysdarft.Word
import Sysdarft.Processor.State
import Sysdarft.Processor.Target
import Sysdarft.Processor.Decoder
import Sysdarft.Processor.Grammar
import Sysdarft.Processor.Executor
import Sysdarft.Processor.Logged
import Sysdarft.Processor.Machine
import Sysdarft.Assembler.Numeral
import Sysdarft.Assembler.Text
import Sysdarft.Assembler.Calculator
import Sysdarft.Assembler.Base16
import Sysdarft.Assembler.Expansion
import Sysdarft.Assembler.Wire
import Sysdarft.Assembler.Decode
import Sysdarft.Assembler.Encode
import Sysdarft.Assembler.Image
import Sysdarft.Assembler.RoundTrip
import Sysdarft.Agreement
import Sysdarft.Trace
import Sysdarft.Debug.Log
import Sysdarft.Debug.Frame
