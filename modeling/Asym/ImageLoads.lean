import Asym.ByteMemory
import Asym.Drawing
import Asym.SegmentLoads

/-!
# Loading fonts and images

`gfx_psf_new` and `gfx_fbmp_new` take the sizes of a font and of an image from the header of a
file of the ram disk, and the functions that draw take them from there. A font of the first
version has a glyph of one byte a row. A font of the second version says how many glyphs it has,
how large they are, and how high, and nothing relates the height to the size; the size of all
glyphs is a product in 32 bits. The size of an image is not compared with its file at all.

A character is a `char` with a sign. `gfx_char` multiplies it in 32 bits, so from 128 on it reads at
the end of the four gigabytes behind the font, and not the glyph.
-/

namespace Asym.ImageLoads

open MachineWords Graphics Ramfs SegmentLoads
open ByteMemory (load load_congr)

section Model

def psf1Magic : Nat := 0x0436
def psf2Magic : Nat := 0x864AB572
def psf1Mode512 : Nat := 1
def fbmpMagic : Nat := 0x706D6266

/-- `sizeof(gfx_psf_t)`, without the glyphs. -/
def psfSize : Nat := 16

/-- A program that loads files: the ram disk, the sizes that its heap has memory for, and what was
in the memory that it gets. -/
structure Host where
  memory : Memory
  grants : Nat → Bool
  stale : Nat → UInt8

/-- Whether `malloc` returns memory. -/
def Host.malloc (host : Host) (size : Nat) : Bool := size ≠ 0 && host.grants size

/-- Memory from an offset on that bytes were read to. -/
def Host.filled (host : Host) (start : Nat) (bytes : List UInt8) : ByteMemory.Memory := fun offset =>
  bytes.getD offset (host.stale (start + offset))

/-- Bytes as memory. -/
def contents (bytes : List UInt8) : ByteMemory.Memory := fun offset => bytes.getD offset 0

/-- `gfx_psf_t`, with the number of glyph bytes that were read. -/
structure Font extends Psf where
  glyphAmount : Nat
  loaded : Nat

/-- The end of both loaders of fonts: the font is allocated, and the glyphs are read. -/
def readGlyphs (host : Host) (file : File) (width height glyphSize glyphAmount glyphBufferSize : Nat) : Option Font :=
  if host.malloc (psfSize + glyphBufferSize) = false then none
  else
    let read := ramfsRead host.memory file glyphBufferSize
    if read.1.length ≠ glyphBufferSize then none
    else some ⟨⟨width, height, glyphSize, host.filled psfSize read.1⟩, glyphAmount, read.1.length⟩

/-- `gfx_psf1_load`. -/
def gfxPsf1Load (host : Host) (file : File) : Option Font :=
  let read := ramfsRead host.memory file 4
  if read.1.length ≠ 4 then none
  else
    let header := contents read.1
    if load header 0 2 ≠ psf1Magic then none
    else
      let glyphAmount := if load header 2 1 &&& psf1Mode512 ≠ 0 then 512 else 256
      let glyphSize := load header 3 1
      readGlyphs host read.2 8 glyphSize glyphSize glyphAmount (glyphAmount * glyphSize)

/-- `gfx_psf2_load`. The product has 32 bits. -/
def gfxPsf2Load (host : Host) (file : File) : Option Font :=
  let read := ramfsRead host.memory file 32
  if read.1.length ≠ 32 then none
  else
    let header := contents read.1
    if load header 0 4 ≠ psf2Magic ∨ load header 4 4 ≠ 0 ∨ load header 8 4 ≠ 32 then none
    else
      let glyphAmount := load header 16 4
      let glyphSize := load header 20 4
      readGlyphs host read.2 (load header 28 4) (load header 24 4) glyphSize glyphAmount
        (glyphAmount * glyphSize % 2 ^ 32)

/-- `gfx_psf_new`, on a path of the ram disk. -/
def gfxPsfNew (host : Host) (root volume : Nat) (path : List UInt8) : Option Font :=
  match ramfsOpen host.memory root volume path with
  | .error _ => none
  | .ok file =>
      let first := ramfsRead host.memory file 1
      if first.1.length ≠ 1 then none
      else
        let start := (ramfsSeek host.memory first.2 0 .seekSet).2
        if contents first.1 0 = 0x36 then gfxPsf1Load host start
        else if contents first.1 0 = 0x72 then gfxPsf2Load host start
        else none

/-- `gfx_fbmp_new`, on a path of the ram disk. -/
def gfxFbmpNew (host : Host) (root volume : Nat) (path : List UInt8) : Option Fbmp :=
  match ramfsOpen host.memory root volume path with
  | .error _ => none
  | .ok file =>
      let sought := ramfsSeek host.memory file 0 .seekEnd
      let fileSize := sought.1
      let start := (ramfsSeek host.memory sought.2 0 .seekSet).2
      if host.malloc fileSize = false then none
      else
        let read := ramfsRead host.memory start fileSize
        if read.1.length ≠ fileSize then none
        else
          let image := host.filled 0 read.1
          if load image 0 4 ≠ fbmpMagic then none
          else some ⟨load image 4 4, load image 8 4, fun index => UInt32.ofNat (load image (12 + 4 * index) 4)⟩

end Model

section Files

/-- Every row of every glyph is in the bytes that were read. -/
def Font.Consistent (font : Font) : Prop :=
  ∀ glyph < font.glyphAmount, ∀ row < font.height, glyph * font.glyphSize + row < font.loaded

/-- The offsets of the glyph bytes that `gfx_char` reads. -/
def charReads (psf : Psf) (height : Nat) (chr : UInt8) : List Nat :=
  (List.range (psf.height * psf.scale height)).flatMap fun y =>
    (List.range (psf.width * psf.scale height)).map fun _ => psf.glyph chr + y / psf.scale height

/-- The pixels that `gfx_fbmp` reads. -/
def fbmpReads (fbmp : Fbmp) : List Nat :=
  (List.range fbmp.height).flatMap fun y => (List.range fbmp.width).map fun x => (x + y * fbmp.width) % 2 ^ 32

/-- For every glyph that a character can name, `gfx_char` reads bytes that were read from the file. -/
def Font.Covers (font : Font) : Prop :=
  ∀ chr : UInt8, chr.toNat < font.glyphAmount → ∀ height, ∀ offset ∈ charReads font.toPsf height chr,
    offset < font.loaded

/-- What is loaded from a file is consistent with it: a font has its glyphs, and an image is as large as
the file is behind the header. -/
def Consistent (host : Host) (root volume : Nat) (path : List UInt8) : Prop :=
  ∀ file, ramfsOpen host.memory root volume path = .ok file →
    (∀ font, gfxPsfNew host root volume path = some font → font.Consistent) ∧
      ∀ fbmp, gfxFbmpNew host root volume path = some fbmp →
        12 + 4 * fbmp.width * fbmp.height ≤ (fileBytes host.memory file).length

/-- What is drawn is read from what was loaded: the glyphs of a font, and the pixels of an image. -/
def ReadsLoaded (host : Host) (root volume : Nat) (path : List UInt8) : Prop :=
  ∀ file, ramfsOpen host.memory root volume path = .ok file →
    (∀ font, gfxPsfNew host root volume path = some font → font.Covers) ∧
      ∀ fbmp, gfxFbmpNew host root volume path = some fbmp → ∀ index ∈ fbmpReads fbmp,
        12 + 4 * index + 4 ≤ (fileBytes host.memory file).length

def psf1GlyphSize (bytes : List UInt8) : Nat := load (contents bytes) 3 1
def psf1GlyphAmount (bytes : List UInt8) : Nat := if load (contents bytes) 2 1 &&& psf1Mode512 ≠ 0 then 512 else 256

/-- A file that is taken for a font of the first version. -/
structure IsPsf1 (host : Host) (bytes : List UInt8) : Prop where
  header : 4 ≤ bytes.length
  magic : load (contents bytes) 0 2 = psf1Magic
  granted : host.malloc (psfSize + psf1GlyphAmount bytes * psf1GlyphSize bytes) = true
  glyphs : 4 + psf1GlyphAmount bytes * psf1GlyphSize bytes ≤ bytes.length

def psf2Width (bytes : List UInt8) : Nat := load (contents bytes) 28 4
def psf2Height (bytes : List UInt8) : Nat := load (contents bytes) 24 4
def psf2GlyphSize (bytes : List UInt8) : Nat := load (contents bytes) 20 4
def psf2GlyphAmount (bytes : List UInt8) : Nat := load (contents bytes) 16 4

/-- The number of glyph bytes that are read for a font of the second version. -/
def psf2Loaded (bytes : List UInt8) : Nat := psf2GlyphAmount bytes * psf2GlyphSize bytes % 2 ^ 32

/-- A file that is taken for a font of the second version. -/
structure IsPsf2 (host : Host) (bytes : List UInt8) : Prop where
  header : 32 ≤ bytes.length
  magic : load (contents bytes) 0 4 = psf2Magic
  version : load (contents bytes) 4 4 = 0
  headerSize : load (contents bytes) 8 4 = 32
  granted : host.malloc (psfSize + psf2Loaded bytes) = true
  glyphs : 32 + psf2Loaded bytes ≤ bytes.length

/-- A file that is taken for an image. The magic number of a very short file is in part what was
in the memory before. -/
structure IsFbmp (host : Host) (bytes : List UInt8) : Prop where
  granted : host.malloc bytes.length = true
  magic : load (host.filled 0 bytes) 0 4 = fbmpMagic

/-- The negative characters of a font read the end of four gigabytes, so they are no glyphs of it, or
the glyphs are nearly four gigabytes. -/
def NegativeFit (amount size height : Nat) : Prop :=
  amount ≤ 128 ∨ 2 ^ 32 + height ≤ (amount + (257 - min amount 256)) * size

/-- The sizes in a file fit. A font of the first version has glyphs of no rows. A font of the second
version is empty, or the product does not wrap, a glyph has a byte for each row, and either it has
no columns or the negative characters fit. An image is in its file. -/
structure Fitting (host : Host) (bytes : List UInt8) : Prop where
  psf1 : IsPsf1 host bytes → psf1GlyphSize bytes = 0
  psf2 : IsPsf2 host bytes → psf2GlyphAmount bytes = 0 ∨ psf2Height bytes = 0 ∨
    psf2GlyphAmount bytes * psf2GlyphSize bytes < 2 ^ 32 ∧ psf2Height bytes ≤ psf2GlyphSize bytes ∧
      (psf2Width bytes = 0 ∨ NegativeFit (psf2GlyphAmount bytes) (psf2GlyphSize bytes) (psf2Height bytes))
  fbmp : IsFbmp host bytes → 12 + 4 * load (contents bytes) 4 4 * load (contents bytes) 8 4 ≤ bytes.length

/-- What is drawn with a font or an image does not depend on memory that was not loaded. -/
def DrawsLoaded (host : Host) (root volume : Nat) (path : List UInt8) : Prop :=
  ∀ file, ramfsOpen host.memory root volume path = .ok file →
    (∀ font, gfxPsfNew host root volume path = some font → ∀ chr : UInt8, chr.toNat < font.glyphAmount →
      ∀ glyphs, (∀ offset < font.loaded, glyphs offset = font.glyphs offset) →
        ∀ (gfx : Gfx) point height foreground background,
          gfx.char { font.toPsf with glyphs := glyphs } point height chr foreground background =
            gfx.char font.toPsf point height chr foreground background) ∧
      ∀ fbmp, gfxFbmpNew host root volume path = some fbmp → ∀ data,
        (∀ index, 12 + 4 * index + 4 ≤ (fileBytes host.memory file).length → data index = fbmp.data index) →
          ∀ (gfx : Gfx) point, gfx.fbmp { fbmp with data := data } point = gfx.fbmp fbmp point

end Files

section Reading

/-- A read of a file returns the bytes behind the position. -/
theorem read_bytes (memory : Memory) {file : File} (inside : file.pos ≤ (fileBytes memory file).length) (count : Nat) :
    (ramfsRead memory file count).1 = ((fileBytes memory file).drop file.pos).take count :=
  (ramfsRead_eq rfl inside count).1

/-- A read of a whole header leaves the file behind the header. -/
theorem read_pos (memory : Memory) {file : File} (start : file.pos = 0) {count : Nat}
    (enough : count ≤ (fileBytes memory file).length) :
    (ramfsRead memory file count).2 = { file with pos := count } := by
  have size : (fileBytes memory file).length = (memory.ramFiles file.privateAddress).size := by
    simp only [fileBytes, List.length_map, List.length_range]
  simp only [ramfsRead, start, Nat.zero_le, if_true, Nat.sub_zero, Nat.zero_add, ← size, Nat.min_eq_left enough]

/-- A load inside of the bytes that were taken is a load from all of them. -/
theorem load_take (bytes : List UInt8) {address width count : Nat} (inside : address + width ≤ count) :
    load (contents (bytes.take count)) address width = load (contents bytes) address width := by
  apply load_congr
  intro offset bounded
  simp only [contents, List.getD_eq_getElem?_getD, List.getElem?_take_of_lt (show address + offset < count by omega)]

/-- A load inside of the bytes that were read does not depend on the memory before. -/
theorem load_filled (host : Host) (bytes : List UInt8) {address width : Nat} (inside : address + width ≤ bytes.length) :
    load (host.filled 0 bytes) address width = load (contents bytes) address width := by
  apply load_congr
  intro offset bounded
  have stored : address + offset < bytes.length := by omega
  simp only [Host.filled, contents, List.getD_eq_getElem?_getD, List.getElem?_eq_getElem stored, Option.getD_some]

/-- `open` leaves a file at its start. -/
theorem open_start {memory : Memory} {root volume : Nat} {path : List UInt8} {file : File}
    (opened : ramfsOpen memory root volume path = .ok file) : file.pos = 0 := by
  simp only [ramfsOpen, atNode, ramfsOpenNode] at opened
  split at opened
  · cases opened
  · split at opened
    · cases opened
    · cases opened
      rfl

/-- `readGlyphs` makes a font exactly if there is memory and the file goes on for the glyphs. -/
theorem readGlyphs_eq {host : Host} {file : File} (inside : file.pos ≤ (fileBytes host.memory file).length)
    (width height glyphSize glyphAmount glyphBufferSize : Nat) (font : Font) :
    readGlyphs host file width height glyphSize glyphAmount glyphBufferSize = some font ↔
      host.malloc (psfSize + glyphBufferSize) = true ∧
      file.pos + glyphBufferSize ≤ (fileBytes host.memory file).length ∧
      font = ⟨⟨width, height, glyphSize,
        host.filled psfSize (((fileBytes host.memory file).drop file.pos).take glyphBufferSize)⟩, glyphAmount,
        glyphBufferSize⟩ := by
  simp only [readGlyphs, read_bytes host.memory inside, List.length_take, List.length_drop]
  by_cases granted : host.malloc (psfSize + glyphBufferSize) = true
  · by_cases short : glyphBufferSize ≤ (fileBytes host.memory file).length - file.pos
    · have fits : file.pos + glyphBufferSize ≤ (fileBytes host.memory file).length := by omega
      simp [granted, Nat.min_eq_left short, fits, eq_comm]
    · have more : ¬ file.pos + glyphBufferSize ≤ (fileBytes host.memory file).length := by omega
      have fewer : min glyphBufferSize ((fileBytes host.memory file).length - file.pos) ≠ glyphBufferSize := by omega
      simp [granted, fewer, more]
  · simp [granted]

/-- A seek to the start undoes a read. -/
theorem seek_start (memory : Memory) {file : File} (start : file.pos = 0) (position : Nat) :
    (ramfsSeek memory { file with pos := position } 0 .seekSet).2 = file := by
  cases file
  simp only [ramfsSeek, Nat.zero_min]
  exact congrArg (fun pos => File.mk _ pos _ _ _) start.symm

end Reading

section Fonts

/-- The font of a file of the first version. -/
def psf1Font (host : Host) (bytes : List UInt8) : Font :=
  ⟨⟨8, psf1GlyphSize bytes, psf1GlyphSize bytes,
    host.filled psfSize ((bytes.drop 4).take (psf1GlyphAmount bytes * psf1GlyphSize bytes))⟩, psf1GlyphAmount bytes,
    psf1GlyphAmount bytes * psf1GlyphSize bytes⟩

/-- `gfx_psf1_load` takes the files that it is meant for, and takes all sizes from them. -/
theorem psf1Load_iff {host : Host} {file : File} (start : file.pos = 0) (font : Font) :
    gfxPsf1Load host file = some font ↔
      IsPsf1 host (fileBytes host.memory file) ∧ font = psf1Font host (fileBytes host.memory file) := by
  have inside : file.pos ≤ (fileBytes host.memory file).length := start ▸ Nat.zero_le _
  simp only [gfxPsf1Load, read_bytes host.memory inside, start, List.drop_zero, List.length_take,
    Option.ite_none_left_eq_some, not_not]
  by_cases enough : 4 ≤ (fileBytes host.memory file).length
  · rw [read_pos host.memory start enough, readGlyphs_eq enough]
    simp only [load_take _ (show 0 + 2 ≤ 4 by decide), load_take _ (show 2 + 1 ≤ 4 by decide),
      load_take _ (show 3 + 1 ≤ 4 by decide)]
    constructor
    · rintro ⟨_, magic, granted, glyphs, rfl⟩
      exact ⟨⟨enough, magic, granted, glyphs⟩, rfl⟩
    · rintro ⟨psf1, rfl⟩
      exact ⟨Nat.min_eq_left enough, psf1.magic, psf1.granted, psf1.glyphs, rfl⟩
  · refine iff_of_false ?_ fun taken => enough taken.1.header
    rintro ⟨length, _⟩
    omega

/-- The first byte of a file of the first version. -/
theorem IsPsf1.first {host : Host} {bytes : List UInt8} (psf1 : IsPsf1 host bytes) : contents bytes 0 = 0x36 := by
  have magic := psf1.magic
  have bounded := (contents bytes 0).toNat_lt
  simp only [load, psf1Magic] at magic
  exact UInt8.toNat_inj.mp (show (contents bytes 0).toNat = 0x36 by omega)

/-- The font of a file of the second version. -/
def psf2Font (host : Host) (bytes : List UInt8) : Font :=
  ⟨⟨load (contents bytes) 28 4, psf2Height bytes, psf2GlyphSize bytes,
    host.filled psfSize ((bytes.drop 32).take (psf2Loaded bytes))⟩, psf2GlyphAmount bytes, psf2Loaded bytes⟩

/-- `gfx_psf2_load` takes the files that it is meant for, and takes all sizes from them. -/
theorem psf2Load_iff {host : Host} {file : File} (start : file.pos = 0) (font : Font) :
    gfxPsf2Load host file = some font ↔
      IsPsf2 host (fileBytes host.memory file) ∧ font = psf2Font host (fileBytes host.memory file) := by
  have inside : file.pos ≤ (fileBytes host.memory file).length := start ▸ Nat.zero_le _
  simp only [gfxPsf2Load, read_bytes host.memory inside, start, List.drop_zero, List.length_take,
    Option.ite_none_left_eq_some, not_or, not_not]
  by_cases enough : 32 ≤ (fileBytes host.memory file).length
  · rw [read_pos host.memory start enough, readGlyphs_eq enough]
    simp only [load_take _ (show 0 + 4 ≤ 32 by decide), load_take _ (show 4 + 4 ≤ 32 by decide),
      load_take _ (show 8 + 4 ≤ 32 by decide), load_take _ (show 16 + 4 ≤ 32 by decide),
      load_take _ (show 20 + 4 ≤ 32 by decide), load_take _ (show 24 + 4 ≤ 32 by decide),
      load_take _ (show 28 + 4 ≤ 32 by decide)]
    constructor
    · rintro ⟨_, ⟨magic, version, headerSize⟩, granted, glyphs, rfl⟩
      exact ⟨⟨enough, magic, version, headerSize, granted, glyphs⟩, rfl⟩
    · rintro ⟨psf2, rfl⟩
      exact ⟨Nat.min_eq_left enough, ⟨psf2.magic, psf2.version, psf2.headerSize⟩, psf2.granted, psf2.glyphs, rfl⟩
  · refine iff_of_false ?_ fun taken => enough taken.1.header
    rintro ⟨length, _⟩
    omega

/-- The first byte of a file of the second version. -/
theorem IsPsf2.first {host : Host} {bytes : List UInt8} (psf2 : IsPsf2 host bytes) : contents bytes 0 = 0x72 := by
  have magic := psf2.magic
  have bounded := (contents bytes 0).toNat_lt
  simp only [load, psf2Magic] at magic
  exact UInt8.toNat_inj.mp (show (contents bytes 0).toNat = 0x72 by omega)

/-- The first byte says which loader is called, and both find the file at its start. -/
theorem gfxPsfNew_eq {host : Host} {root volume : Nat} {path : List UInt8} {file : File}
    (opened : ramfsOpen host.memory root volume path = .ok file) :
    gfxPsfNew host root volume path =
      if 1 ≤ (fileBytes host.memory file).length then
        if contents (fileBytes host.memory file) 0 = 0x36 then gfxPsf1Load host file
        else if contents (fileBytes host.memory file) 0 = 0x72 then gfxPsf2Load host file
        else none
      else none := by
  have start := open_start opened
  have inside : file.pos ≤ (fileBytes host.memory file).length := start ▸ Nat.zero_le _
  simp only [gfxPsfNew, opened, read_bytes host.memory inside, start, List.drop_zero, List.length_take]
  by_cases enough : 1 ≤ (fileBytes host.memory file).length
  · have first : contents ((fileBytes host.memory file).take 1) 0 = contents (fileBytes host.memory file) 0 := by
      simp only [contents, List.getD_eq_getElem?_getD, List.getElem?_take_of_lt Nat.one_pos]
    simp only [read_pos host.memory start enough, seek_start host.memory start, first, Nat.min_eq_left enough, enough,
      if_true, ne_eq, not_true_eq_false, if_false]
  · have short : min 1 (fileBytes host.memory file).length ≠ 1 := by omega
    simp only [enough, short, ne_eq, not_false_eq_true, if_true, if_false]

/-- The last row of the last glyph is below a product that may have wrapped exactly if it has not,
and rows are not more than a glyph has. A product that wraps loses more than a glyph. -/
theorem rows_fit_iff {amount size height : Nat} (small : size < 2 ^ 32) :
    (∀ glyph < amount, ∀ row < height, glyph * size + row < amount * size % 2 ^ 32) ↔
      amount = 0 ∨ height = 0 ∨ amount * size < 2 ^ 32 ∧ height ≤ size := by
  constructor
  · intro fit
    by_cases empty : amount = 0 ∨ height = 0
    · exact or_assoc.mp (Or.inl empty)
    · obtain ⟨last, rfl⟩ := Nat.exists_eq_succ_of_ne_zero (not_or.mp empty).1
      have bounded := fit last (Nat.lt_succ_self last) (height - 1) (by omega)
      simp only [Nat.succ_eq_add_one, Nat.add_mul, Nat.one_mul] at bounded ⊢
      generalize last * size = before at bounded ⊢
      omega
  · rintro (none_ | none_ | ⟨whole, enough⟩) glyph listed row bounded
    · omega
    · omega
    · rw [Nat.mod_eq_of_lt whole]
      exact Nat.lt_of_lt_of_le (Nat.add_lt_add_left (Nat.lt_of_lt_of_le bounded enough) _)
        (by rw [← Nat.succ_mul]; exact Nat.mul_le_mul_right _ listed)

/-- `gfx_char` reads the rows of a glyph, if the font has columns. -/
theorem mem_charReads {psf : Psf} {height : Nat} {chr : UInt8} {offset : Nat} :
    offset ∈ charReads psf height chr ↔ 0 < psf.width ∧ ∃ row < psf.height, offset = psf.glyph chr + row := by
  have positive : 0 < psf.scale height := Nat.lt_of_lt_of_le Nat.one_pos (Nat.le_max_left 1 _)
  simp only [charReads, List.mem_flatMap, List.mem_range, List.mem_map]
  constructor
  · rintro ⟨y, inRows, x, inColumns, rfl⟩
    refine ⟨Nat.pos_of_mul_pos_right (Nat.zero_lt_of_lt inColumns), y / psf.scale height, ?_, rfl⟩
    exact Nat.div_lt_of_lt_mul (by rwa [Nat.mul_comm] at inRows)
  · rintro ⟨wide, row, inside, rfl⟩
    exact ⟨row * psf.scale height, Nat.mul_lt_mul_of_pos_right inside positive, 0, Nat.mul_pos wide positive,
      by rw [Nat.mul_div_cancel _ positive]⟩

/-- The offset that is read for a negative character. -/
theorem glyph_negative (psf : Psf) {chr : UInt8} (negative : 128 ≤ chr.toNat) (some : 0 < psf.glyphSize)
    (small : (256 - chr.toNat) * psf.glyphSize < 2 ^ 32) :
    psf.glyph chr = 2 ^ 32 - (256 - chr.toNat) * psf.glyphSize := by
  have byte := chr.toNat_lt
  have sign : chr.toBitVec.msb = true := by
    rw [BitVec.msb_eq_true_iff_two_mul_ge]
    exact (by omega : 2 ^ 8 ≤ 2 * chr.toNat)
  have extended : (chr.toBitVec.signExtend 32).toNat = 2 ^ 32 - (256 - chr.toNat) := by
    rw [BitVec.toNat_signExtend, sign, BitVec.toNat_setWidth, UInt8.toNat_toBitVec]
    simp only [if_true]
    omega
  have below : 0 < 256 - chr.toNat := Nat.sub_pos_of_lt byte
  rw [Psf.glyph, BitVec.toNat_mul, extended, BitVec.toNat_ofNat, Nat.mul_mod_mod]
  obtain ⟨more, size⟩ := Nat.exists_eq_add_one_of_ne_zero (Nat.ne_of_gt some)
  generalize 256 - chr.toNat = places at small below ⊢
  have positive : 0 < places * psf.glyphSize := Nat.mul_pos below some
  have product : (2 ^ 32 - places) * psf.glyphSize = 2 ^ 32 * more + (2 ^ 32 - places * psf.glyphSize) := by
    have full : 2 ^ 32 * psf.glyphSize = 2 ^ 32 * more + 2 ^ 32 := by rw [size, Nat.mul_succ]
    rw [Nat.sub_mul]
    omega
  rw [product, Nat.mul_add_mod, Nat.mod_eq_of_lt (Nat.sub_lt (by decide) positive)]

/-- A font that has its glyphs covers its characters exactly if it has no columns or its negative
characters fit. Of these the last one reads furthest. -/
theorem covers_iff {font : Font} (whole : font.loaded = font.glyphAmount * font.glyphSize)
    (small : font.loaded < 2 ^ 32) (some : 0 < font.height) (rows : font.height ≤ font.glyphSize) :
    font.Covers ↔ font.width = 0 ∨ NegativeFit font.glyphAmount font.glyphSize font.height := by
  have size : 0 < font.glyphSize := Nat.lt_of_lt_of_le some rows
  have negative {chr : UInt8} (signed : 128 ≤ chr.toNat) (listed : chr.toNat < font.glyphAmount) :
      font.toPsf.glyph chr = 2 ^ 32 - (256 - chr.toNat) * font.glyphSize ∧
        (256 - chr.toNat) * font.glyphSize < 2 ^ 32 := by
    have fits : (256 - chr.toNat) * font.glyphSize < 2 ^ 32 :=
      Nat.lt_of_le_of_lt (Nat.mul_le_mul_right _ (by omega)) (whole ▸ small)
    exact ⟨glyph_negative font.toPsf signed size fits, fits⟩
  constructor
  · intro covers
    by_contra neither
    obtain ⟨wide, unfit⟩ := not_or.mp neither
    obtain ⟨many, short⟩ := not_or.mp unfit
    -- The last negative character.
    have byte : (UInt8.ofNat (min font.glyphAmount 256 - 1)).toNat = min font.glyphAmount 256 - 1 :=
      UInt8.toNat_ofNat_of_lt' (show min font.glyphAmount 256 - 1 < 256 by omega)
    obtain ⟨place, fits⟩ := @negative (UInt8.ofNat (min font.glyphAmount 256 - 1)) (by omega) (by omega)
    have read := covers (UInt8.ofNat (min font.glyphAmount 256 - 1)) (by omega) 0 _
      (mem_charReads.mpr ⟨Nat.pos_of_ne_zero wide, font.height - 1, Nat.sub_lt some Nat.one_pos, rfl⟩)
    have last : 256 - (min font.glyphAmount 256 - 1) = 257 - min font.glyphAmount 256 := by omega
    rw [byte, last] at fits
    rw [place, byte, last, whole] at read
    rw [Nat.add_mul] at short
    omega
  · rintro fit chr listed height offset read
    obtain ⟨wide, row, inside, rfl⟩ := mem_charReads.mp read
    rw [whole]
    by_cases signed : 128 ≤ chr.toNat
    · obtain ⟨place, fits⟩ := negative signed listed
      have enough := (fit.resolve_left (Nat.ne_of_gt wide)).resolve_left (by omega)
      have further : (257 - min font.glyphAmount 256) * font.glyphSize ≤ (256 - chr.toNat) * font.glyphSize :=
        Nat.mul_le_mul_right _ (by have := chr.toNat_lt; omega)
      rw [place]
      rw [Nat.add_mul] at enough
      omega
    · have glyph : (chr.toNat + 1) * font.glyphSize ≤ font.glyphAmount * font.glyphSize :=
        Nat.mul_le_mul_right _ listed
      rw [Nat.succ_mul] at glyph
      rw [glyph_eq _ (Nat.lt_of_not_le signed), Nat.mod_eq_of_lt (by omega)]
      omega

/-- A font is consistent and covers its characters exactly if its sizes fit. -/
theorem font_fits_iff {font : Font} (small : font.glyphSize < 2 ^ 32)
    (loaded : font.loaded = font.glyphAmount * font.glyphSize % 2 ^ 32) :
    font.Consistent ∧ font.Covers ↔ font.glyphAmount = 0 ∨ font.height = 0 ∨
      font.glyphAmount * font.glyphSize < 2 ^ 32 ∧ font.height ≤ font.glyphSize ∧
        (font.width = 0 ∨ NegativeFit font.glyphAmount font.glyphSize font.height) := by
  rw [Font.Consistent, loaded, rows_fit_iff small]
  by_cases none : font.glyphAmount = 0
  · exact iff_of_true ⟨.inl none, fun chr listed => absurd listed (by omega)⟩ (.inl none)
  by_cases empty : font.height = 0
  · refine iff_of_true ⟨.inr (.inl empty), fun chr _ height offset read => ?_⟩ (.inr (.inl empty))
    obtain ⟨_, row, inside, _⟩ := mem_charReads.mp read
    omega
  simp only [none, empty, false_or, and_assoc]
  refine and_congr_right fun whole => and_congr_right fun rows => ?_
  have all : font.loaded = font.glyphAmount * font.glyphSize := loaded.trans (Nat.mod_eq_of_lt whole)
  exact covers_iff all (all ▸ whole) (Nat.pos_of_ne_zero empty) rows

/-- A font of the second version is right exactly if its sizes fit. -/
theorem psf2_fits_iff (host : Host) (bytes : List UInt8) :
    (psf2Font host bytes).Consistent ∧ (psf2Font host bytes).Covers ↔ psf2GlyphAmount bytes = 0 ∨ psf2Height bytes = 0 ∨
      psf2GlyphAmount bytes * psf2GlyphSize bytes < 2 ^ 32 ∧ psf2Height bytes ≤ psf2GlyphSize bytes ∧
        (psf2Width bytes = 0 ∨ NegativeFit (psf2GlyphAmount bytes) (psf2GlyphSize bytes) (psf2Height bytes)) :=
  @font_fits_iff (psf2Font host bytes) (ByteMemory.load_lt (contents bytes) 20 4) rfl

/-- A font of the first version has negative characters, and is far from four gigabytes. -/
theorem psf1_fits_iff (host : Host) (bytes : List UInt8) :
    (psf1Font host bytes).Consistent ∧ (psf1Font host bytes).Covers ↔ psf1GlyphSize bytes = 0 := by
  have size : psf1GlyphSize bytes < 256 := ByteMemory.load_lt (contents bytes) 3 1
  have amount : psf1GlyphAmount bytes = 512 ∨ psf1GlyphAmount bytes = 256 := by
    rw [psf1GlyphAmount]
    split
    · exact .inl rfl
    · exact .inr rfl
  have whole : psf1GlyphAmount bytes * psf1GlyphSize bytes < 2 ^ 32 := by
    rcases amount with same | same <;> rw [same] <;> omega
  rw [@font_fits_iff (psf1Font host bytes) (Nat.lt_trans size (by decide)) (Nat.mod_eq_of_lt whole).symm]
  have far : (psf1GlyphAmount bytes + (257 - min (psf1GlyphAmount bytes) 256)) * psf1GlyphSize bytes < 2 ^ 32 := by
    rcases amount with same | same
    · rw [same]
      exact Nat.lt_trans (Nat.mul_lt_mul_of_pos_left size (by decide)) (by decide)
    · rw [same]
      exact Nat.lt_trans (Nat.mul_lt_mul_of_pos_left size (by decide)) (by decide)
  simp only [psf1Font, NegativeFit]
  omega

/-- The first byte says which loader is called, and the sizes of the font are those of its file. -/
theorem gfxPsfNew_iff {host : Host} {root volume : Nat} {path : List UInt8} {file : File}
    (opened : ramfsOpen host.memory root volume path = .ok file) (font : Font) :
    gfxPsfNew host root volume path = some font ↔
      IsPsf1 host (fileBytes host.memory file) ∧ font = psf1Font host (fileBytes host.memory file) ∨
        IsPsf2 host (fileBytes host.memory file) ∧ font = psf2Font host (fileBytes host.memory file) := by
  have start := open_start opened
  have other : (0x72 : UInt8) ≠ 0x36 := by decide
  rw [gfxPsfNew_eq opened]
  constructor
  · intro loaded
    split at loaded
    · split at loaded
      · exact .inl ((psf1Load_iff start font).mp loaded)
      · split at loaded
        · exact .inr ((psf2Load_iff start font).mp loaded)
        · cases loaded
    · cases loaded
  · rintro (⟨psf1, rfl⟩ | ⟨psf2, rfl⟩)
    · rw [if_pos (Nat.le_trans (by decide) psf1.header), if_pos psf1.first]
      exact (psf1Load_iff start _).mpr ⟨psf1, rfl⟩
    · rw [if_pos (Nat.le_trans (by decide) psf2.header), psf2.first, if_neg other, if_pos rfl]
      exact (psf2Load_iff start _).mpr ⟨psf2, rfl⟩

end Fonts

section Images

/-- The image of a file. -/
def fbmpOf (host : Host) (bytes : List UInt8) : Fbmp :=
  let image := host.filled 0 bytes
  ⟨load image 4 4, load image 8 4, fun index => UInt32.ofNat (load image (12 + 4 * index) 4)⟩

/-- `gfx_fbmp_new` takes a file with the magic number. -/
theorem gfxFbmpNew_iff {host : Host} {root volume : Nat} {path : List UInt8} {file : File}
    (opened : ramfsOpen host.memory root volume path = .ok file)
    (word : (fileBytes host.memory file).length < wordSize) (fbmp : Fbmp) :
    gfxFbmpNew host root volume path = some fbmp ↔
      IsFbmp host (fileBytes host.memory file) ∧ fbmp = fbmpOf host (fileBytes host.memory file) := by
  have start := open_start opened
  have inside : file.pos ≤ (fileBytes host.memory file).length := start ▸ Nat.zero_le _
  have size : (fileBytes host.memory file).length = (host.memory.ramFiles file.privateAddress).size := by
    simp only [fileBytes, List.length_map, List.length_range]
  have sought : (ramfsSeek host.memory file 0 .seekEnd).1 = (fileBytes host.memory file).length := by
    simp only [ramfsSeek, ← size]
    exact sub_of_le _ 0 (Nat.zero_le _) word
  have back : (ramfsSeek host.memory (ramfsSeek host.memory file 0 .seekEnd).2 0 .seekSet).2 = file :=
    seek_start host.memory start _
  simp only [gfxFbmpNew, opened, sought, back, read_bytes host.memory inside, start, List.drop_zero, List.take_length,
    ne_eq, not_true_eq_false, if_false, Option.ite_none_left_eq_some, not_not, Bool.not_eq_false, Option.some.injEq]
  constructor
  · rintro ⟨granted, magic, rfl⟩
    exact ⟨⟨granted, magic⟩, rfl⟩
  · rintro ⟨image, rfl⟩
    exact ⟨image.granted, image.magic, rfl⟩

/-- An image is in its file exactly if the sizes in the file say so. -/
theorem fbmp_consistent_iff (host : Host) (bytes : List UInt8) :
    12 + 4 * (fbmpOf host bytes).width * (fbmpOf host bytes).height ≤ bytes.length ↔
      12 + 4 * load (contents bytes) 4 4 * load (contents bytes) 8 4 ≤ bytes.length := by
  by_cases header : 12 ≤ bytes.length
  · simp only [fbmpOf, load_filled host bytes (show 4 + 4 ≤ bytes.length by omega),
      load_filled host bytes (show 8 + 4 ≤ bytes.length by omega)]
  · exact iff_of_false (fun fits => header (by omega)) fun fits => header (by omega)

/-- Images are in their files exactly if the sizes in a file with the magic number say so. -/
theorem images_consistent_iff {host : Host} {root volume : Nat} {path : List UInt8} {file : File}
    (opened : ramfsOpen host.memory root volume path = .ok file)
    (word : (fileBytes host.memory file).length < wordSize) :
    (∀ fbmp, gfxFbmpNew host root volume path = some fbmp →
      12 + 4 * fbmp.width * fbmp.height ≤ (fileBytes host.memory file).length) ↔
      (IsFbmp host (fileBytes host.memory file) → 12 + 4 * load (contents (fileBytes host.memory file)) 4 4 *
        load (contents (fileBytes host.memory file)) 8 4 ≤ (fileBytes host.memory file).length) := by
  constructor
  · intro consistent image
    exact (fbmp_consistent_iff host _).mp (consistent _ ((gfxFbmpNew_iff opened word _).mpr ⟨image, rfl⟩))
  · intro fits fbmp loaded
    obtain ⟨image, rfl⟩ := (gfxFbmpNew_iff opened word fbmp).mp loaded
    exact (fbmp_consistent_iff host _).mpr (fits image)

end Images

section Drawing

/-- Loops with bodies that are equal inside of the area. -/
theorem forPixels_congr {height width : Nat} {first second : Nat → Nat → (Int → Pixel) → Int → Pixel}
    (same : ∀ y < height, ∀ x < width, first x y = second x y) (buffer : Int → Pixel) :
    forPixels height width first buffer = forPixels height width second buffer := by
  apply List.foldl_ext
  intro rows y inRows
  apply List.foldl_ext
  intro before x inColumns
  rw [same y (List.mem_range.mp inRows) x (List.mem_range.mp inColumns)]

/-- What `gfx_char` draws depends on the glyph bytes that it reads. -/
theorem char_reads {psf : Psf} {chr : UInt8} {height : Nat} {glyphs : Nat → UInt8}
    (same : ∀ offset ∈ charReads psf height chr, glyphs offset = psf.glyphs offset) (gfx : Gfx) (point : Point)
    (foreground background : Pixel) :
    gfx.char { psf with glyphs := glyphs } point height chr foreground background =
      gfx.char psf point height chr foreground background := by
  simp only [Gfx.char]
  refine congrArg (fun buffer => { gfx with buffer := buffer }.invalidate (psf.charRect point height)) ?_
  apply forPixels_congr
  intro y inRows x inColumns
  have drawn := same (psf.glyph chr + y / psf.scale height) (List.mem_flatMap.mpr
    ⟨y, List.mem_range.mpr inRows, List.mem_map.mpr ⟨x, List.mem_range.mpr inColumns, rfl⟩⟩)
  funext buffer
  exact congrArg (fun row : UInt8 => Function.update buffer ((point.x + x) + (point.y + y) * gfx.stride)
    (pixelBlend (buffer ((point.x + x) + (point.y + y) * gfx.stride))
      (if row.toNat &&& (0x80 >>> (x / psf.scale height)) ≠ 0 then foreground else background))) drawn

/-- `gfx_fbmp` reads the pixels of an image, in their file if it is as large. -/
theorem fbmpReads_inside {fbmp : Fbmp} {length : Nat} (inFile : 12 + 4 * fbmp.width * fbmp.height ≤ length)
    {index : Nat} (read : index ∈ fbmpReads fbmp) : 12 + 4 * index + 4 ≤ length := by
  simp only [fbmpReads, List.mem_flatMap, List.mem_range, List.mem_map] at read
  obtain ⟨y, inRows, x, inColumns, rfl⟩ := read
  have place : x + y * fbmp.width + 1 ≤ fbmp.height * fbmp.width :=
    Nat.le_trans (by rw [Nat.succ_mul]; omega) (Nat.mul_le_mul_right fbmp.width (Nat.succ_le_of_lt inRows))
  have wrapped := Nat.mod_le (x + y * fbmp.width) (2 ^ 32)
  rw [Nat.mul_assoc, Nat.mul_comm fbmp.width] at inFile
  omega

/-- What `gfx_fbmp` draws depends on the pixels that it reads. -/
theorem fbmp_reads {fbmp : Fbmp} {data : Nat → Pixel} (same : ∀ index ∈ fbmpReads fbmp, data index = fbmp.data index)
    (gfx : Gfx) (point : Point) : gfx.fbmp { fbmp with data := data } point = gfx.fbmp fbmp point := by
  simp only [Gfx.fbmp]
  refine congrArg (fun buffer => { gfx with buffer := buffer }.invalidate
    (rectInitDim point.x point.x fbmp.width fbmp.height)) ?_
  apply forPixels_congr
  intro y inRows x inColumns
  funext buffer
  rw [same ((x + y * fbmp.width) % 2 ^ 32) (List.mem_flatMap.mpr
    ⟨y, List.mem_range.mpr inRows, List.mem_map.mpr ⟨x, List.mem_range.mpr inColumns, rfl⟩⟩)]

end Drawing

section Loaders

/-- A font from a file with sizes that fit is right. -/
theorem Fitting.font {host : Host} {root volume : Nat} {path : List UInt8} {file : File} {font : Font}
    (fitting : Fitting host (fileBytes host.memory file)) (opened : ramfsOpen host.memory root volume path = .ok file)
    (loaded : gfxPsfNew host root volume path = some font) : font.Consistent ∧ font.Covers := by
  rcases (gfxPsfNew_iff opened font).mp loaded with ⟨psf1, rfl⟩ | ⟨psf2, rfl⟩
  · exact (psf1_fits_iff host _).mpr (fitting.psf1 psf1)
  · exact (psf2_fits_iff host _).mpr (fitting.psf2 psf2)

/-- Loaders accept only consistent files, of which `gfx_char` and `gfx_fbmp` read loaded data only,
exactly if the sizes in the file that is opened fit. What is drawn then depends on loaded data only.
Each loader takes its sizes from the file, so both sides are about these: for a font the rows of
the last glyph and of the last negative character decide, for an image its last pixel. -/
theorem loaders_consistent_iff (host : Host) (words : ∀ node, (host.memory.ramFiles node).size < wordSize)
    (root volume : Nat) (path : List UInt8) :
    (Consistent host root volume path ∧ ReadsLoaded host root volume path ↔
      ∀ file, ramfsOpen host.memory root volume path = .ok file → Fitting host (fileBytes host.memory file)) ∧
      (ReadsLoaded host root volume path → DrawsLoaded host root volume path) := by
  have word : ∀ file, (fileBytes host.memory file).length < wordSize := by
    intro file
    simpa only [fileBytes, List.length_map, List.length_range] using words file.privateAddress
  refine ⟨⟨?_, fun fitting => ⟨fun file opened => ?_, fun file opened => ?_⟩⟩, fun reads file opened => ?_⟩
  · rintro ⟨consistent, reads⟩ file opened
    obtain ⟨fonts, images⟩ := consistent file opened
    have covers := (reads file opened).1
    refine ⟨fun psf1 => ?_, fun psf2 => ?_, (images_consistent_iff opened (word file)).mp images⟩
    · have loaded := (gfxPsfNew_iff opened _).mpr (.inl ⟨psf1, rfl⟩)
      exact (psf1_fits_iff host _).mp ⟨fonts _ loaded, covers _ loaded⟩
    · have loaded := (gfxPsfNew_iff opened _).mpr (.inr ⟨psf2, rfl⟩)
      exact (psf2_fits_iff host _).mp ⟨fonts _ loaded, covers _ loaded⟩
  · exact ⟨fun font loaded => (fitting file opened).font opened loaded |>.1,
      (images_consistent_iff opened (word file)).mpr (fitting file opened).fbmp⟩
  · refine ⟨fun font loaded => (fitting file opened).font opened loaded |>.2, fun fbmp loaded index read => ?_⟩
    have inFile := (images_consistent_iff opened (word file)).mpr (fitting file opened).fbmp fbmp loaded
    exact fbmpReads_inside inFile read
  · obtain ⟨covers, images⟩ := reads file opened
    refine ⟨fun font loaded chr listed glyphs same gfx point height foreground background => ?_,
      fun fbmp loaded data same gfx point => ?_⟩
    · exact char_reads (fun offset read => same offset (covers font loaded chr listed height offset read)) gfx point
        foreground background
    · exact fbmp_reads (fun index read => same index (images fbmp loaded index read)) gfx point

/-- A ram disk with one file. -/
def fileHost (bytes : List UInt8) : Host where
  memory :=
    { nodes := fun node => if node = 1 then ⟨ramfsDir, none, [2], []⟩ else ⟨ramfsFile, some 1, [], [102]⟩
      ramFiles := fun _ => ⟨0, bytes.length⟩
      blocks := fun _ offset => bytes.getD offset 0
      used := [] }
  grants := fun _ => true
  stale := fun _ => 0

/-- The file is found, and has its bytes. -/
theorem fileHost_open (bytes : List UInt8) : ∀ file, ramfsOpen (fileHost bytes).memory 1 0 [102] = .ok file →
    fileBytes (fileHost bytes).memory file = bytes := by
  intro file _
  apply List.ext_getElem
  · simp only [fileBytes, fileHost, List.length_map, List.length_range]
  · intro index _ inside
    simp only [fileBytes, fileHost, List.getElem_map, List.getElem_range, List.getD_eq_getElem?_getD,
      List.getElem?_eq_getElem inside, Option.getD_some]

/-- A file of the second version with one glyph of one row. -/
def oneGlyph : List UInt8 :=
  [0x72, 0xB5, 0x4A, 0x86, 0, 0, 0, 0, 32, 0, 0, 0, 0, 0, 0, 0, 1, 0, 0, 0, 1, 0, 0, 0, 1, 0, 0, 0, 8, 0, 0, 0, 255]

/-- The file with one glyph is consistent, and is drawn from what was loaded. -/
theorem one_glyph_consistent : (Consistent (fileHost oneGlyph) 1 0 [102] ∧ ReadsLoaded (fileHost oneGlyph) 1 0 [102]) ∧
    DrawsLoaded (fileHost oneGlyph) 1 0 [102] := by
  have fitting : ∀ file, ramfsOpen (fileHost oneGlyph).memory 1 0 [102] = .ok file →
      Fitting (fileHost oneGlyph) (fileBytes (fileHost oneGlyph).memory file) := by
    intro file opened
    rw [fileHost_open oneGlyph file opened]
    exact ⟨fun psf1 => absurd psf1.magic (by decide),
      fun _ => .inr (.inr ⟨by decide, by decide, .inr (.inl (by decide))⟩), fun image => absurd image.magic (by decide)⟩
  obtain ⟨exact_, drawn⟩ := loaders_consistent_iff (fileHost oneGlyph) (fun _ => show 33 < wordSize by decide) 1 0 [102]
  exact ⟨exact_.mpr fitting, drawn (exact_.mpr fitting).2⟩

/-- A file of the second version that says that it has 65536 glyphs of 65536 bytes, and ends. -/
def manyGlyphs : List UInt8 :=
  [0x72, 0xB5, 0x4A, 0x86, 0, 0, 0, 0, 32, 0, 0, 0, 0, 0, 0, 0, 0, 0, 1, 0, 0, 0, 1, 0, 16, 0, 0, 0, 8, 0, 0, 0]

/-- An image that says that it has one pixel, and ends. -/
def onePixel : List UInt8 := [0x66, 0x62, 0x6D, 0x70, 1, 0, 0, 0, 1, 0, 0, 0]

/-- A file of the first version with 256 glyphs of one row. -/
def oneRow : List UInt8 := [0x36, 0x04, 0, 1] ++ List.replicate 256 0

/-- The font with many glyphs and the image are loaded from files that have none of their data, and
of the font with one row the negative characters are read four gigabytes behind it. -/
theorem many_glyphs_and_one_pixel :
    ¬ Consistent (fileHost manyGlyphs) 1 0 [102] ∧ ¬ Consistent (fileHost onePixel) 1 0 [102] ∧
      ¬ (Consistent (fileHost oneRow) 1 0 [102] ∧ ReadsLoaded (fileHost oneRow) 1 0 [102]) := by
  refine ⟨?_, ?_, ?_⟩
  · intro consistent
    obtain ⟨file, opened⟩ : ∃ file, ramfsOpen (fileHost manyGlyphs).memory 1 0 [102] = .ok file := ⟨_, rfl⟩
    have psf2 : IsPsf2 (fileHost manyGlyphs) (fileBytes (fileHost manyGlyphs).memory file) := by
      rw [fileHost_open manyGlyphs file opened]
      constructor <;> decide
    have fits := (rows_fit_iff (ByteMemory.load_lt _ 20 4)).mp
      ((consistent file opened).1 _ ((gfxPsfNew_iff opened _).mpr (.inr ⟨psf2, rfl⟩)))
    rw [fileHost_open manyGlyphs file opened] at fits
    exact absurd fits (by decide)
  · intro consistent
    obtain ⟨file, opened⟩ : ∃ file, ramfsOpen (fileHost onePixel).memory 1 0 [102] = .ok file := ⟨_, rfl⟩
    have word : (fileBytes (fileHost onePixel).memory file).length < wordSize := by
      rw [fileHost_open onePixel file opened]
      decide
    have image : IsFbmp (fileHost onePixel) (fileBytes (fileHost onePixel).memory file) := by
      rw [fileHost_open onePixel file opened]
      constructor <;> decide
    have fits := (images_consistent_iff opened word).mp (consistent file opened).2 image
    rw [fileHost_open onePixel file opened] at fits
    exact absurd fits (by decide)
  · rintro ⟨consistent, reads⟩
    obtain ⟨file, opened⟩ : ∃ file, ramfsOpen (fileHost oneRow).memory 1 0 [102] = .ok file := ⟨_, rfl⟩
    have psf1 : IsPsf1 (fileHost oneRow) (fileBytes (fileHost oneRow).memory file) := by
      rw [fileHost_open oneRow file opened]
      exact ⟨by decide +kernel, by decide, rfl, by decide +kernel⟩
    have loaded := (gfxPsfNew_iff opened _).mpr (.inl ⟨psf1, rfl⟩)
    have fits := (psf1_fits_iff _ _).mp ⟨(consistent file opened).1 _ loaded, (reads file opened).1 _ loaded⟩
    rw [fileHost_open oneRow file opened] at fits
    exact absurd fits (by decide)

end Loaders

end Asym.ImageLoads
