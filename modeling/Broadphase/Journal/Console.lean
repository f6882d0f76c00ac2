import Broadphase.Journal.Calendar
import Broadphase.Journal.Entry

/-!
How the console shows an entry: time, severity, source and message on one line,
and the place an error was raised behind it. Severity and source may be
coloured.
-/

namespace Broadphase

namespace Console

/-- The colour of a word, by the codes the terminal takes. -/
structure Colour where
  codes : String

inductive Palette where
  | plain
  | coloured
  deriving DecidableEq

def reset : String := "\x1b[0m"

def Colour.mark (colour : Colour) : String := "\x1b[" ++ colour.codes ++ "m"

/-- A word in a colour, if the palette has colours at all. Where the word itself
ends a colour, this one begins again. -/
def Palette.paint (palette : Palette) (colour : Colour) (word : String) : String :=
  match palette with
  | .plain => word
  | .coloured =>
      colour.mark ++ (reset ++ colour.mark).intercalate (word.splitOn reset) ++ reset

/-- The word for a severity, always five characters wide. -/
def label : Severity → String
  | .trace => "TRACE"
  | .debug => "DEBUG"
  | .info => "INFO "
  | .warn => "WARN "
  | .error => "ERROR"

/-- Grey, cyan, green, yellow, and bold red for errors. -/
def severityColour : Severity → Colour
  | .trace => ⟨"90"⟩
  | .debug => ⟨"36"⟩
  | .info => ⟨"32"⟩
  | .warn => ⟨"33"⟩
  | .error => ⟨"1;31"⟩

def sourceColour : Colour := ⟨"94"⟩

/-- The place an entry was raised at, when it tells file and line. -/
def placeText (e : Entry) : String :=
  match e.file, e.line with
  | some file, some line => s!" ({file}:{line})"
  | _, _ => ""

def body (palette : Palette) (e : Entry) : String :=
  "[" ++ palette.paint (severityColour e.severity) (label e.severity) ++ "] [" ++
    palette.paint sourceColour e.source ++ "] " ++ e.message ++ placeText e ++ "\n"

/-- The line of an entry written at an instant given in milliseconds. -/
def line (palette : Palette) (instant : Int) (e : Entry) : String :=
  "[" ++ (Timestamp.ofMilliseconds instant).text ++ "] " ++ body palette e

end Console

end Broadphase
