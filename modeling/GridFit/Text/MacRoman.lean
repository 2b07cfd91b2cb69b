/-!
# Mac Roman

The Macintosh encoding of the Roman script. The lower half is ASCII.
-/

namespace GridFit.MacRoman

def upperHalf : Array Char :=
  ("ÄÅÇÉÑÖÜáàâäãåçéè" ++
   "êëíìîïñóòôöõúùûü" ++
   "†°¢£§•¶ß®©™´¨≠ÆØ" ++
   "∞±≤≥¥µ∂∑∏π∫ªºΩæø" ++
   "¿¡¬√ƒ≈∆«»…\u00a0ÀÃÕŒœ" ++
   "–—“”‘’÷◊ÿŸ⁄€‹›ﬁﬂ" ++
   "‡·‚„‰ÂÊÁËÈÍÎÏÌÓÔ" ++
   "\uf8ffÒÚÛÙıˆ˜¯˘˙˚¸˝˛ˇ").toList.toArray

def ofByte (b : UInt8) : Char :=
  if b < 0x80 then Char.ofNat b.toNat else upperHalf.getD (b.toNat - 0x80) '\uFFFD'

def decode (data : List UInt8) : List Char := data.map ofByte

end GridFit.MacRoman
