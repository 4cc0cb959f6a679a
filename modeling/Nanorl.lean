import Nanorl.Lib.Logged
import Nanorl.Lib.PrefixCode
import Nanorl.Lib.Run
import Nanorl.Lib.StackLanguage
import Nanorl.Lib.Terminal
import Nanorl.Lib.Utf8
import Nanorl.Lib.Words
import Nanorl.Lib.Writer
import Nanorl.Lib.Zipper
import Nanorl.Model.Platform
import Nanorl.Model.Terminfo
import Nanorl.Model.Dfa
import Nanorl.Model.Io
import Nanorl.Model.Format
import Nanorl.Model.Pointers
import Nanorl.Model.Render
import Nanorl.Model.Manip
import Nanorl.Model.Session
import Nanorl.Model.Example
import Nanorl.Sound.DfaTree
import Nanorl.Sound.DfaBuild
import Nanorl.Sound.DfaParse
import Nanorl.Sound.DfaShared
import Nanorl.Sound.Reader
import Nanorl.Sound.Tokens
import Nanorl.Sound.Reference
import Nanorl.Sound.Chunks
import Nanorl.Sound.Screen
import Nanorl.Sound.Edit
import Nanorl.Sound.Terminfo
import Nanorl.Sound.Text
import Nanorl.Sound.Session
import Nanorl.Sound.Lines
import Nanorl.Sound.Cursor
import Nanorl.Sound.Loop
import Nanorl.Sound.Characters
import Nanorl.Sound.Geometry
import Nanorl.Sound.Echo
import Nanorl.Sound.Delivery
import Nanorl.Sound.Emulator
import Nanorl.Sound.Display
import Nanorl.Sound.Query
import Nanorl.Sound.Capability
import Nanorl.Sound.Frame
import Nanorl.Sound.Alike
import Nanorl.Sound.Teardown
import Nanorl.Sound.Handlers
import Nanorl.Sound.Calls
import Nanorl.Sound.Interrupt
import Nanorl.Sound.Keypad
import Nanorl.Sound.Secrecy
import Nanorl.Sound.Answers
import Nanorl.Sound.Backtrack
import Nanorl.Sound.Buffered
import Nanorl.Sound.Report
import Nanorl.Sound.Scan
import Nanorl.Sound.RoundTrip
import Nanorl.Sound.Pointers
import Nanorl.Sound.Directives
import Nanorl.Sound.Overrun
import Nanorl.Sound.Rendering
import Nanorl.Sound.Counters
import Nanorl.Sound.Typeahead
import Nanorl.Sound.Erase
import Nanorl.Sound.Notify
import Nanorl.Sound.AtHand
import Nanorl.Sound.Keystrokes
import Nanorl.Sound.Typing
import Nanorl.Sound.Opening
import Nanorl.Sound.Edited
import Nanorl.Sound.Onlooker
import Nanorl.Sound.Database
import Nanorl.Sound.Printout
import Nanorl.Sound.Asked
import Nanorl.Sound.Interactive
import Nanorl.Sound.Example
import Nanorl.Sound.Dialogue
import Nanorl.Sound.Agreement
