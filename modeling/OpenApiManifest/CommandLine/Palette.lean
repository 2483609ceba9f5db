import OpenApiManifest.CommandLine.Arguments

/-!
# Palettes

How pieces of output are coloured by their role.  A piece of output stands between two control
sequences, also where colours are off: then the first one asks for the standard colour.
-/

namespace OpenApiManifest.CommandLine

/-- A background to choose colours for. -/
inductive Theme where
  | dark | light
  deriving DecidableEq, Repr

/-- What a piece of output is. -/
inductive Role where
  | timestamp | primary | accent | info | success | label | value
  deriving DecidableEq, Repr

/-- A colour by its red, green and blue parts. -/
structure Color where
  red : Nat
  green : Nat
  blue : Nat
  deriving DecidableEq, Repr

def Role.color : Role → Theme → Color
  | .timestamp, .dark => ⟨120, 144, 156⟩
  | .timestamp, .light => ⟨84, 96, 110⟩
  | .primary, .dark => ⟨152, 195, 121⟩
  | .primary, .light => ⟨46, 94, 40⟩
  | .accent, .dark => ⟨224, 108, 117⟩
  | .accent, .light => ⟨176, 48, 60⟩
  | .info, .dark => ⟨97, 175, 239⟩
  | .info, .light => ⟨30, 96, 160⟩
  | .success, .dark => ⟨86, 182, 194⟩
  | .success, .light => ⟨20, 120, 110⟩
  | .label, .dark => ⟨198, 120, 221⟩
  | .label, .light => ⟨120, 60, 150⟩
  | .value, .dark => ⟨229, 192, 123⟩
  | .value, .light => ⟨150, 100, 20⟩

/-- What a run knows of its surroundings: whether it prints to a terminal, and the values of two
variables. -/
structure Surroundings where
  terminal : Bool
  /-- `NO_COLOR`; any text but the empty one turns the control sequences off. -/
  noColor : Option String
  /-- `COLORFGBG`, the colours of the terminal with the background last. -/
  background : Option String
  deriving DecidableEq, Repr

/-- A byte in decimal digits, which may follow a plus sign. -/
def byte? (text : String) : Option Nat :=
  let digits := match text.toList with
    | '+' :: rest => rest
    | chars => chars
  if digits.isEmpty || !digits.all Char.isDigit then none
  else
    let value := digits.foldl (fun n d => n * 10 + (d.toNat - 48)) 0
    if value < 256 then some value else none

/-- The theme for a background; the first eight colours of a terminal are dark. -/
def Theme.ofBackground? (background : Option String) : Option Theme := do
  let last ← (← background).splitOn ";" |>.getLast?
  return if 8 ≤ (← byte? last) then .light else .dark

def ThemeMode.theme (surroundings : Surroundings) : ThemeMode → Theme
  | .dark => .dark
  | .light => .light
  | .auto => (Theme.ofBackground? surroundings.background).getD .dark

def ColorMode.isOn (surroundings : Surroundings) : ColorMode → Bool
  | .always => true
  | .never => false
  | .auto => surroundings.terminal && surroundings.noColor.isNone

/-- How output is coloured. -/
structure Palette where
  colored : Bool
  theme : Theme
  /-- Whether the control sequences are left without a colour. -/
  blank : Bool
  deriving DecidableEq, Repr

namespace Palette

def ofModes (surroundings : Surroundings) (color : ColorMode) (theme : ThemeMode) : Palette :=
  { colored := color.isOn surroundings
    theme := theme.theme surroundings
    blank := surroundings.noColor.any fun text => !text.isEmpty }

def control (text : String) : String := "\x1b[" ++ text ++ "m"

/-- The code of the colour of a role. -/
def code (palette : Palette) (role : Role) : String :=
  if palette.colored then
    let color := role.color palette.theme
    "38;2;" ++ Nat.repr color.red ++ ";" ++ Nat.repr color.green ++ ";" ++ Nat.repr color.blue
  else "39"

/-- A text in the colour of a role. -/
def paint (palette : Palette) (role : Role) (text : String) : String :=
  if palette.blank then control "" ++ text ++ control ""
  else control (palette.code role) ++ text ++ control "39"

end Palette

end OpenApiManifest.CommandLine
