/-!
# Spelling

Names are made of ASCII characters only, so that a text in any other script is spelled in ASCII first.  How that
is done is not settled here: every definition that makes names takes the spelling as an argument.
-/

namespace OpenApiManifest

/-- A way to spell texts in ASCII. -/
class Spelling where
  /-- The characters that a text is spelled with. -/
  chars : List Char → List Char

namespace Spelling

/-- Whether texts that are in ASCII are spelled as they are. -/
def Keeps [Spelling] : Prop :=
  ∀ cs : List Char, (∀ c ∈ cs, c.toNat < 128) → chars cs = cs

/-- How a character of German is spelled: the umlauts lose their dots. -/
def germanLetter : Char → List Char
  | 'Ä' => ['A']
  | 'Ö' => ['O']
  | 'Ü' => ['U']
  | 'ä' => ['a']
  | 'ö' => ['o']
  | 'ü' => ['u']
  | 'ß' => ['s', 's']
  | c => if c.toNat < 128 then [c] else []

/-- The spelling of German texts. -/
abbrev german : Spelling where
  chars cs := cs.flatMap germanLetter

end Spelling

end OpenApiManifest
