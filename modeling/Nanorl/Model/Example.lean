import Nanorl.Model.Session

/-!
# Nanorl.Model.Example

`nrl_example.c`: some configurations of the example program, and the handler of its tab key.
-/

namespace Nanorl

/-- `tab_func`: four spaces at the cursor. -/
def tabFunc (line : List Byte) (cursor : Nat) (_code : Int) : List Byte × Nat :=
  (line.take cursor ++ ascii "    " ++ line.drop cursor, cursor + 4)

/-- `tab_handler`, for `NRL_ESC_TAB` -/
def tabHandler : EscapeHandler := { id := 28, func := .utf8 tabFunc }

/-- The configuration of `ex_normal`. -/
def exNormal : Config := { defaultConf with prompt := some (ascii "enter something: ") }

/-- The configuration of `ex_hidden`. -/
def exHidden : Config := { defaultConf with prompt := some (ascii "input secret: "), echoMode := 0 }

/-- The configuration of `ex_escape_utf8`. -/
def exEscapeUtf8 : Config := { defaultConf with
  prompt := some (ascii "try hitting tab: ")
  customHandlers := some [tabHandler] }

end Nanorl
