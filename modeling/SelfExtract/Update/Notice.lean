import SelfExtract.Settings

/-!
# The announcement of a newer release

A box of fixed width. Rows are filled up by their visible length, so that
colours do not move the right border; longer rows push it out.
-/
namespace SelfExtract.Notice

structure Frame where
  topLeft : String
  topRight : String
  bottomLeft : String
  bottomRight : String
  horizontal : String
  vertical : String

def Frame.lines : Frame := ⟨"┌", "┐", "└", "┘", "─", "│"⟩

def Frame.ascii : Frame := ⟨"+", "+", "+", "+", "-", "|"⟩

def width : Nat := 45

/-- `count` copies of a text. -/
def copies (count : Nat) (s : String) : String :=
  String.join (List.replicate count s)

def styled (code text : String) : String :=
  "\x1b[" ++ code ++ "m" ++ text ++ "\x1b[0m"

def row (f : Frame) (plain shown : String) : String :=
  f.vertical ++ "  " ++ shown ++ copies (width - (plain.length + 4)) " " ++ "  " ++ f.vertical ++
    "\n"

def command (u : UpdateSettings) : String :=
  if u.binname.isEmpty then u.command else u.binname ++ " " ++ u.command

def render (boxes colours : Bool) (u : UpdateSettings) (current latest : String) : String :=
  let f := if boxes then Frame.lines else Frame.ascii
  let edge := copies width f.horizontal
  let plain := "Update available: " ++ current ++ " -> " ++ latest
  let shown := if colours then
      styled "1" "Update available:" ++ " " ++ styled "90" current ++ " -> " ++ styled "32" latest
    else plain
  let run := "Run: " ++ command u
  let shownRun := if colours then "Run: " ++ styled "36" (command u) else run
  "\n" ++ f.topLeft ++ edge ++ f.topRight ++ "\n" ++ row f plain shown ++
    (if u.command.isEmpty then "" else row f run shownRun) ++
    f.bottomLeft ++ edge ++ f.bottomRight ++ "\n\n"

end SelfExtract.Notice
