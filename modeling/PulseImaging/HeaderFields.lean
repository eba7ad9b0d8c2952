import PulseImaging.BootRestore

/-! The text header of an image file, as `restore` and as the boot loader read it. -/

namespace PulseImaging

/-- The header of file `i`; the first string is empty after file 0. -/
def fileHeader (options : Option (List Byte)) (info : List Byte) (nb_sect nb i lg : Nat) (bitmap : List Byte) :
    List Byte :=
  imageHeader (headerText (if i = 0 then firststring nb_sect nb info else []) (filestring options i) lg) bitmap

/-- Both readers find the length of the bitmap, and the number of files exactly if there is one. -/
structure ReadAlike (header : List Byte) (lg : Nat) (blocks : Option Nat) : Prop where
  restoreLg : headerField alloctablelgKey header = some (lg : Int)
  bootLg : val "ALLOCTABLELG" header = lg
  restoreBlocks : headerField blocksKey header = blocks.map (fun nb : Nat => (nb : Int))
  restoreHasBlocks : (strstr blocksKey (cstr header)).isSome = blocks.isSome
  bootHasBlocks : existField "BLOCKS" header = blocks.isSome
  bootBlocks : ∀ nb, blocks = some nb → val "BLOCKS" header = nb

theorem readAlike_first {info : List Byte} (hinfo : info ∈ imagerInfos)
    {options : Option (List Byte)} (halloc : ¬ alloctablelgKey <:+: filestring options 0)
    {nb_sect nb lg : Nat} (hs : nb_sect < 2 ^ 64) (hn : nb < 2 ^ 31) (hlg : lg ≤ ALLOCLG)
    (bitmap : List Byte) :
    ReadAlike (fileHeader options info nb_sect nb 0 lg bitmap) lg (some nb) := by
  have h0 := headerText_zero_not_mem (firststring_zero_not_mem hinfo nb_sect nb)
    (filestring_zero_not_mem options 0) lg
  have hlt := headerText_length_lt (firststring_length_le hinfo hs hn)
    (filestring_length_le options 0) hlg
  have hkey := alloctablelgKey_absent hinfo halloc nb_sect nb
  have hblocks := strstr_blocks_first h0 hlt bitmap
  obtain ⟨hval, hexist⟩ := @val_decimal "BLOCKS" _ _ hn 124 _ (by decide) (by decide) hblocks
  exact ⟨headerField_alloctablelg hkey h0 hlt bitmap,
    val_alloctablelg (hlg.trans_lt (by decide)) (strstr_alloctablelg hkey h0 hlt bitmap),
    headerField_blocks_first h0 hlt bitmap, congrArg Option.isSome hblocks, hexist,
    fun nb' hnb => by rw [← Option.some.inj hnb]; exact hval⟩

theorem readAlike_later {options : Option (List Byte)} {i : Nat} (hi : i ≠ 0) (info : List Byte)
    (hblocks : ¬ blocksKey <:+: filestring options i)
    (halloc : ¬ alloctablelgKey <:+: filestring options i) (nb_sect nb : Nat) {lg : Nat}
    (hlg : lg ≤ ALLOCLG) (bitmap : List Byte) :
    ReadAlike (fileHeader options info nb_sect nb i lg bitmap) lg none := by
  have h0 := headerText_zero_not_mem (show (0 : Byte) ∉ [] by simp)
    (filestring_zero_not_mem options i) lg
  have hlt := headerText_length_lt (show ([] : List Byte).length ≤ 100 by simp)
    (filestring_length_le options i) hlg
  have hnone := strstr_blocks_later hblocks h0 hlt bitmap
  have hexist : existField "BLOCKS" (imageHeader (headerText [] (filestring options i) lg) bitmap) = false := by
    have hkey : ascii "BLOCKS" ++ ascii "=" = blocksKey := rfl
    rw [existField, fieldText, hkey, hnone]
    rfl
  rw [fileHeader, if_neg hi]
  exact ⟨headerField_alloctablelg halloc h0 hlt bitmap,
    val_alloctablelg (hlg.trans_lt (by decide)) (strstr_alloctablelg halloc h0 hlt bitmap),
    headerField_blocks_later hblocks h0 hlt bitmap, congrArg Option.isSome hnone, hexist,
    fun nb' hnb => by simp at hnb⟩

/-- The files of `compress_volume` begin with these headers. -/
theorem compressVolume_header (io : Nat → Outcome) (options : Option (List Byte))
    {info : List Byte} (hinfo : info ∈ imagerInfos) (p : PARAMS) (dev : Device) {i : Nat}
    {calls : List DeflateCall}
    (hcalls : (compressVolume io options info p dev).files[i]? = some calls) :
    ∃ slice, (slicesOf p.bitmap)[i]? = some slice ∧ slice.length ≤ ALLOCLG ∧
      calls.head? = some ⟨fileHeader options info p.nb_sect
        (blockCount p.bitmap.length) i slice.length slice, false⟩ := by
  obtain ⟨parts, hdata, hslices, hlayout, -⟩ := compressVolume_layout io options hinfo p dev
  obtain ⟨hi, hget⟩ := List.getElem?_eq_some_iff.mp hcalls
  have hi' : i < parts.length := hdata.length_eq ▸ hi
  have hpart : parts[i]? = some parts[i] := List.getElem?_eq_getElem hi'
  have hfile : FileData calls parts[i] := hget ▸ (List.forall₂_iff_get.mp hdata).2 i hi hi'
  obtain ⟨hshape, hheader⟩ := hlayout i parts[i] hpart
  obtain ⟨tail, hcons, -⟩ := hfile.header_first
  have hnb : parts.length = blockCount p.bitmap.length := by
    rw [← List.length_map (f := Part.slice), hslices, slicesOf, bitmapSlices_length]
  refine ⟨parts[i].slice, ?_, hshape.slice_le, ?_⟩
  · rw [← hslices, List.getElem?_map, hpart]
    rfl
  · rw [hcons, List.head?_cons, hheader, hnb]
    rfl

/-- The header of every file is read alike by `restore` and by the boot loader, whatever
the number of sectors and files and the length of the bitmap; it is the header that
`compress_volume` writes. -/
theorem header_agreement {options : Option (List Byte)} {i : Nat} {info : List Byte} (hinfo : info ∈ imagerInfos)
    (hblocks : ¬ blocksKey <:+: filestring options i) (halloc : ¬ alloctablelgKey <:+: filestring options i)
    {nb_sect nb : Nat} (hs : nb_sect < 2 ^ 64) (hn : nb < 2 ^ 31) :
    (∀ lg ≤ ALLOCLG, ∀ bitmap, ReadAlike (fileHeader options info nb_sect nb i lg bitmap) lg
      (if i = 0 then some nb else none)) ∧
    ∀ io dev p calls, p.nb_sect = nb_sect → blockCount p.bitmap.length = nb →
      (compressVolume io options info p dev).files[i]? = some calls →
      ∃ slice, slice.length ≤ ALLOCLG ∧
        calls.head? = some ⟨fileHeader options info nb_sect nb i slice.length slice, false⟩ := by
  constructor
  · intro lg hlg bitmap
    by_cases hi : i = 0
    · subst hi
      exact readAlike_first hinfo halloc hs hn hlg bitmap
    · rw [if_neg hi]
      exact readAlike_later hi info hblocks halloc nb_sect nb hlg bitmap
  · rintro io dev p calls rfl rfl hcalls
    obtain ⟨slice, -, hle, hhead⟩ := compressVolume_header io options hinfo p dev hcalls
    exact ⟨slice, hle, hhead⟩

theorem header_agreement_ntfs :
    ReadAlike (fileHeader (some (ascii "L000:NOTE=1\n")) (ascii "NTFS=1") 1000 2 0 126 []) 126 (some 2) :=
  (header_agreement (i := 0) (by decide) (by decide +kernel) (by decide +kernel) (by norm_num)
    (by norm_num)).1
    126 (by decide) []

end PulseImaging
