import OpenApiManifest.Text.Spelling

/-!
# Letters

The spelling that the command line uses: Latin letters with marks, and some letters of other scripts, follow
a table; a character that is not in it is left out.  Nothing is proved by this table, as the library is about
any spelling.
-/

namespace OpenApiManifest.Letters

/-- Spellings, each with the code points that have it. -/
def spellings : List (String × List Nat) := [
  (" ", [0xA0]),
  ("GBP", [0xA3]),
  ("(C)", [0xA9]),
  ("<<", [0xAB]),
  ("2", [0xB2]),
  ("u", [0xB5, 0xF9, 0xFA, 0xFB, 0xFC, 0x169, 0x16B, 0x16D, 0x16F, 0x171, 0x173, 0x1E73, 0x1E75,
    0x1E77, 0x1E79, 0x1E7B, 0x1EE5, 0x1EE7, 0x1EE9, 0x1EEB, 0x1EED, 0x1EEF, 0x1EF1]),
  (">>", [0xBB]),
  ("1/2", [0xBD]),
  ("A", [0xC0, 0xC1, 0xC2, 0xC3, 0xC4, 0xC5, 0x100, 0x102, 0x104, 0x1E00, 0x1EA0, 0x1EA2,
    0x1EA4, 0x1EA6, 0x1EA8, 0x1EAA, 0x1EAC, 0x1EAE, 0x1EB0, 0x1EB2, 0x1EB4, 0x1EB6]),
  ("Ae", [0xC6]),
  ("C", [0xC7, 0x106, 0x108, 0x10A, 0x10C, 0x1E08]),
  ("E", [0xC8, 0xC9, 0xCA, 0xCB, 0x112, 0x114, 0x116, 0x118, 0x11A, 0x395, 0x1E14, 0x1E16,
    0x1E18, 0x1E1A, 0x1E1C, 0x1EB8, 0x1EBA, 0x1EBC, 0x1EBE, 0x1EC0, 0x1EC2, 0x1EC4, 0x1EC6]),
  ("I", [0xCC, 0xCD, 0xCE, 0xCF, 0x128, 0x12A, 0x12C, 0x12E, 0x130, 0x1E2C, 0x1E2E, 0x1EC8,
    0x1ECA]),
  ("D", [0xD0, 0x10E, 0x110, 0x1E0A, 0x1E0C, 0x1E0E, 0x1E10, 0x1E12]),
  ("N", [0xD1, 0x143, 0x145, 0x147, 0x1E44, 0x1E46, 0x1E48, 0x1E4A]),
  ("O", [0xD2, 0xD3, 0xD4, 0xD5, 0xD6, 0xD8, 0x14C, 0x14E, 0x150, 0x1E4C, 0x1E4E, 0x1E50,
    0x1E52, 0x1ECC, 0x1ECE, 0x1ED0, 0x1ED2, 0x1ED4, 0x1ED6, 0x1ED8, 0x1EDA, 0x1EDC, 0x1EDE,
    0x1EE0, 0x1EE2]),
  ("U", [0xD9, 0xDA, 0xDB, 0xDC, 0x168, 0x16A, 0x16C, 0x16E, 0x170, 0x172, 0x1E72, 0x1E74,
    0x1E76, 0x1E78, 0x1E7A, 0x1EE4, 0x1EE6, 0x1EE8, 0x1EEA, 0x1EEC, 0x1EEE, 0x1EF0]),
  ("Y", [0xDD, 0x176, 0x178, 0x1E8E, 0x1EF2, 0x1EF4, 0x1EF6, 0x1EF8]),
  ("Th", [0xDE]),
  ("ss", [0xDF]),
  ("a", [0xE0, 0xE1, 0xE2, 0xE3, 0xE4, 0xE5, 0x101, 0x103, 0x105, 0x3AC, 0x3B1, 0x1E01, 0x1EA1,
    0x1EA3, 0x1EA5, 0x1EA7, 0x1EA9, 0x1EAB, 0x1EAD, 0x1EAF, 0x1EB1, 0x1EB3, 0x1EB5, 0x1EB7]),
  ("ae", [0xE6]),
  ("c", [0xE7, 0x107, 0x109, 0x10B, 0x10D, 0x1E09]),
  ("e", [0xE8, 0xE9, 0xEA, 0xEB, 0x113, 0x115, 0x117, 0x119, 0x11B, 0x435, 0x1E15, 0x1E17,
    0x1E19, 0x1E1B, 0x1E1D, 0x1EB9, 0x1EBB, 0x1EBD, 0x1EBF, 0x1EC1, 0x1EC3, 0x1EC5, 0x1EC7]),
  ("i", [0xEC, 0xED, 0xEE, 0xEF, 0x129, 0x12B, 0x12D, 0x12F, 0x131, 0x438, 0x1E2D, 0x1E2F,
    0x1EC9, 0x1ECB]),
  ("d", [0xF0, 0x10F, 0x111, 0x3B4, 0x1E0B, 0x1E0D, 0x1E0F, 0x1E11, 0x1E13]),
  ("n", [0xF1, 0x144, 0x146, 0x148, 0x1E45, 0x1E47, 0x1E49, 0x1E4B]),
  ("o", [0xF2, 0xF3, 0xF4, 0xF5, 0xF6, 0xF8, 0x14D, 0x14F, 0x151, 0x1E4D, 0x1E4F, 0x1E51,
    0x1E53, 0x1ECD, 0x1ECF, 0x1ED1, 0x1ED3, 0x1ED5, 0x1ED7, 0x1ED9, 0x1EDB, 0x1EDD, 0x1EDF,
    0x1EE1, 0x1EE3]),
  ("y", [0xFD, 0xFF, 0x177, 0x1E8F, 0x1E99, 0x1EF3, 0x1EF5, 0x1EF7, 0x1EF9]),
  ("th", [0xFE]),
  ("G", [0x11C, 0x11E, 0x120, 0x122, 0x1E20]),
  ("g", [0x11D, 0x11F, 0x121, 0x123, 0x1E21]),
  ("H", [0x124, 0x1E22, 0x1E24, 0x1E26, 0x1E28, 0x1E2A]),
  ("h", [0x125, 0x62D, 0x1E23, 0x1E25, 0x1E27, 0x1E29, 0x1E2B, 0x1E96]),
  ("J", [0x134]),
  ("j", [0x135]),
  ("K", [0x136, 0x1E30, 0x1E32, 0x1E34]),
  ("k", [0x137, 0x1E31, 0x1E33, 0x1E35]),
  ("L", [0x139, 0x13B, 0x13D, 0x141, 0x1E36, 0x1E38, 0x1E3A, 0x1E3C]),
  ("l", [0x13A, 0x13C, 0x13E, 0x142, 0x3BB, 0x5DC, 0x1E37, 0x1E39, 0x1E3B, 0x1E3D]),
  ("Oe", [0x152]),
  ("oe", [0x153]),
  ("R", [0x154, 0x156, 0x158, 0x1E58, 0x1E5A, 0x1E5C, 0x1E5E]),
  ("r", [0x155, 0x157, 0x159, 0x440, 0x631, 0x1E59, 0x1E5B, 0x1E5D, 0x1E5F]),
  ("S", [0x15A, 0x15C, 0x15E, 0x160, 0x1E60, 0x1E62, 0x1E64, 0x1E66, 0x1E68]),
  ("s", [0x15B, 0x15D, 0x15F, 0x161, 0x5E9, 0x1E61, 0x1E63, 0x1E65, 0x1E67, 0x1E69]),
  ("T", [0x162, 0x164, 0x1E6A, 0x1E6C, 0x1E6E, 0x1E70]),
  ("t", [0x163, 0x165, 0x442, 0x1E6B, 0x1E6D, 0x1E6F, 0x1E71, 0x1E97]),
  ("W", [0x174, 0x1E80, 0x1E82, 0x1E84, 0x1E86, 0x1E88]),
  ("w", [0x175, 0x1E81, 0x1E83, 0x1E85, 0x1E87, 0x1E89, 0x1E98]),
  ("Z", [0x179, 0x17B, 0x17D, 0x1E90, 0x1E92, 0x1E94]),
  ("z", [0x17A, 0x17C, 0x17E, 0x1E91, 0x1E93, 0x1E95]),
  ("v", [0x3B2, 0x432, 0x5D5, 0x1E7D, 0x1E7F]),
  ("P", [0x41F, 0x1E54, 0x1E56]),
  ("m", [0x43C, 0x5DD, 0x645, 0x1E3F, 0x1E41, 0x1E43]),
  ("b", [0x628, 0x1E03, 0x1E05, 0x1E07]),
  ("B", [0x1E02, 0x1E04, 0x1E06]),
  ("F", [0x1E1E]),
  ("f", [0x1E1F]),
  ("M", [0x1E3E, 0x1E40, 0x1E42]),
  ("p", [0x1E55, 0x1E57]),
  ("V", [0x1E7C, 0x1E7E]),
  ("X", [0x1E8A, 0x1E8C]),
  ("x", [0x1E8B, 0x1E8D]),
  ("-", [0x2013, 0x2014]),
  ("\"", [0x201C, 0x201D]),
  ("...", [0x2026]),
  ("EUR", [0x20AC]),
  ("TM", [0x2122]),
  ("Jing", [0x4EAC]),
  ("Bei", [0x5317]),
  ("Ri", [0x65E5]),
  ("Ben", [0x672C]),
  ("Dong", [0x6771]),
  ("Gug", [0xAD6D]),
  ("Han", [0xD55C]),
  ("fi", [0xFB01]),
  (":thumbsup:", [0x1F44D]),
  (":grinning:", [0x1F600])]

def ofChar (c : Char) : List Char :=
  if c.toNat < 128 then [c]
  else if 0xFF01 ≤ c.toNat ∧ c.toNat ≤ 0xFF5E then [Char.ofNat (c.toNat - 0xFEE0)]
  else
    match spellings.find? (·.2.contains c.toNat) with
    | some (spelling, _) => spelling.toList
    | none => []

instance spelling : Spelling where
  chars cs := cs.flatMap ofChar

end OpenApiManifest.Letters
