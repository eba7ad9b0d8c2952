import PulseImaging.RestoreImage
import PulseImaging.StoredStream

/-! Backup followed by restore when every call on the two devices completes. -/

namespace PulseImaging

abbrev Sector := Vector Byte 512

/-- The bytes of a volume given by its sectors. -/
def volumeContent (V : List Sector) : Content := fun i => (V.map Vector.toList).flatten.getD i 0

/-- The sectors of consecutive parts with their global bit indexes. -/
def globalItems (base : Nat) : List Part → List (Nat × List Byte)
  | [] => []
  | p :: ps => p.items.map (fun x => (base + x.1, x.2)) ++ globalItems (base + 8 * p.slice.length) ps

theorem puts_shift (base k : Nat) (c : Content) (items : List (Nat × List Byte)) :
    puts base c (items.map (fun x => (k + x.1, x.2))) = puts (base + k) c items := by
  induction items generalizing c with
  | nil => rfl
  | cons x items ih => simpa [puts, Nat.add_assoc] using ih _

theorem run_fileVisit_writes {p : Part} (hp : p.Sectors) {d : Device} {base : Nat}
    (hpos : d.pos = 512 * base) :
    (d.run allFull (.tell :: fileVisit p.slice.length (writes p.items))).content =
      puts base d.content p.items ∧
      (d.run allFull (.tell :: fileVisit p.slice.length (writes p.items))).pos =
        512 * (base + 8 * p.slice.length) := by
  obtain ⟨hc, hv⟩ := run_visit_writes (d.exec allFull .tell)
    (Part.items_ascends hp) (Part.items_length hp) hpos
  obtain ⟨hc', hp'⟩ := run_gap _ (visitEnd_items_le p) hv
  rw [run_cons, fileVisit, run_append]
  exact ⟨hc'.trans hc, hp'⟩

theorem run_restoreRequests {parts : List Part} (hparts : ∀ p ∈ parts, p.Sectors) {d : Device}
    {S base : Nat} (hpos : d.pos = 512 * (S + base)) :
    (d.run allFull (restoreRequests parts)).content = puts S d.content (globalItems base parts) ∧
      (d.run allFull (restoreRequests parts)).pos =
        512 * (S + base + 8 * ((parts.map Part.slice).flatten).length) := by
  induction parts generalizing d base with
  | nil => exact ⟨rfl, hpos⟩
  | cons p ps ih =>
    obtain ⟨hc, hp⟩ := run_fileVisit_writes (hparts p (by simp)) hpos
    have h := ih (fun q hq => hparts q (by simp [hq]))
      (show _ = 512 * (S + (base + 8 * p.slice.length)) by rw [hp]; omega)
    rw [hc] at h
    rw [show restoreRequests (p :: ps) = (.tell :: fileVisit p.slice.length (writes p.items)) ++
      restoreRequests ps from rfl, run_append, h.1, h.2, globalItems, puts_append, puts_shift]
    refine ⟨rfl, ?_⟩
    simp only [List.map_cons, List.flatten_cons, List.length_append]
    omega

theorem globalItems_fst {parts : List Part} (hparts : ∀ p ∈ parts, p.Sectors) (base : Nat) :
    (globalItems base parts).map Prod.fst = globalBits base (parts.map Part.slice) := by
  induction parts generalizing base with
  | nil => rfl
  | cons p ps ih =>
    have hfst : p.items.map Prod.fst = setBits p.slice :=
      List.map_fst_zip (hparts p (by simp)).secs_count.ge
    rw [globalItems, List.map_append, ih (fun q hq => hparts q (by simp [hq])), List.map_cons,
      globalBits, List.map_map, ← hfst, List.map_map]
    rfl

theorem globalItems_snd {parts : List Part} (hparts : ∀ p ∈ parts, p.Sectors) (base : Nat) :
    (globalItems base parts).map Prod.snd = parts.flatMap Part.secs := by
  induction parts generalizing base with
  | nil => rfl
  | cons p ps ih =>
    have hsnd : p.items.map Prod.snd = p.secs := List.map_snd_zip (hparts p (by simp)).secs_count.le
    rw [globalItems, List.map_append, ih (fun q hq => hparts q (by simp [hq])), List.flatMap_cons,
      List.map_map, ← hsnd]
    rfl

theorem PartsOf.sectors {files : List (List DeflateCall)} {slices : List (List Byte)}
    {parts : List Part} (h : PartsOf files slices parts) : ∀ p ∈ parts, p.Sectors := by
  have hdata := h.data
  clear h
  induction hdata with
  | nil => simp
  | cons hfile _ ih =>
    intro q hq
    rcases List.mem_cons.mp hq with rfl | hq
    · exact hfile.sectors
    · exact ih q hq

/-- The sectors of the set bits of a volume, with their bit indexes. -/
def savedSectors (c : Content) (bitmap : List Byte) : List (Nat × List Byte) :=
  (setBits bitmap).map (fun g => (g, slice c (512 * g) 512))

theorem eq_map_of_forall₂ {α β γ : Type} {U : α → β → Prop} {R : α → γ → Prop} {f : γ → β}
    {a : List α} {b : List β} {g : List γ} (hu : List.Forall₂ U a b) (hr : List.Forall₂ R a g)
    (h : ∀ x ∈ a, ∀ y z, U x y → R x z → y = f z) : b = g.map f := by
  induction hu generalizing g with
  | nil => cases hr; rfl
  | @cons x y a b hxy _ ih =>
    cases hr with
    | @cons _ z _ g hxz hrest =>
      rw [List.map_cons, h x (by simp) y z hxy hxz, ih hrest (fun w hw => h w (by simp [hw]))]

/-- The sectors that a completed backup stores are those of the set bits. -/
theorem compressVolume_saved {options : Option (List Byte)} {info : List Byte}
    (hinfo : info ∈ imagerInfos) {p : PARAMS} (hread : HeadersRead options info p) (c : Content) :
    ∃ parts, PartsOf (compressVolume allFull options info p (openDevice c)).files
      (slicesOf p.bitmap) parts ∧
      globalItems 0 parts = savedSectors c p.bitmap := by
  obtain ⟨parts, hparts, hreads⟩ := compressVolume_parts allFull hinfo hread (openDevice c)
  refine ⟨parts, hparts, ?_⟩
  have hpos := (read_positions_iff allFull (fun _ => True) p c).mpr (fun _ _ _ _ _ => rfl)
  have hsecs : parts.flatMap Part.secs = (setBits p.bitmap).map (fun g => slice c (512 * g) 512) := by
    refine eq_map_of_forall₂ hreads hpos (fun x hx y z hy hz => ?_)
    rw [hy (trace_outcome (List.mem_of_mem_filter hx)), hz trivial]
    rfl
  have hbits : (globalItems 0 parts).map Prod.fst = setBits p.bitmap := by
    rw [globalItems_fst hparts.sectors, hparts.slices_eq, globalBits_eq, slicesOf_flatten]
    simp
  have hsaved : savedSectors c p.bitmap =
      (setBits p.bitmap).zip ((setBits p.bitmap).map (fun g => slice c (512 * g) 512)) :=
    List.zip_of_prod (by simp [savedSectors, Function.comp_def])
      (by simp [savedSectors, Function.comp_def])
  rw [hsaved]
  exact List.zip_of_prod hbits ((globalItems_snd hparts.sectors 0).trans hsecs)

theorem volumeContent_slice {V : List Sector} {i : Nat} {s : Sector} (h : V[i]? = some s) :
    slice (volumeContent V) (512 * i) 512 = s.toList := by
  have hdrop : ((V.map Vector.toList).flatten).drop (512 * i) =
      ((V.map Vector.toList).drop i).flatten := drop_flatten_512 (by simp) i
  have hs : (V.map Vector.toList).drop i = s.toList :: (V.map Vector.toList).drop (i + 1) := by
    obtain ⟨hlt, he⟩ := List.getElem?_eq_some_iff.mp h
    rw [List.drop_eq_getElem_cons (by simpa using hlt), List.getElem_map, he]
  rw [hs, List.flatten_cons] at hdrop
  apply List.ext_getElem?
  intro k
  by_cases hk : k < 512
  · have hget : ((V.map Vector.toList).flatten)[512 * i + k]? = s.toList[k]? := by
      rw [← List.getElem?_drop, hdrop, List.getElem?_append_left (by simpa using hk)]
    rw [slice_getElem? hk, volumeContent, List.getD_eq_getElem?_getD, hget,
      List.getElem?_eq_getElem (by simpa using hk), Option.getD_some]
  · rw [List.getElem?_eq_none_iff.mpr (by simp; omega),
      List.getElem?_eq_none_iff.mpr (by simp; omega)]

/-- Restore after a backup stores the sectors of the set bits, leaves the device behind
the last bit of the bitmap and tests no bit outside the bitmap of a file. -/
theorem restore_saved {C : Codec} (hC : C.Correct) {options : Option (List Byte)}
    (hopt : NoKeywords options) {info : List Byte} (hinfo : info ∈ imagerInfos) (p : PARAMS)
    (c : Content) (sect : Nat) (mem : Memory) (dev : Device) {fuel : Nat}
    (hfuel : imageFuel C (compressVolume allFull options info p (openDevice c)) ≤ fuel) :
    ∃ st, restore C.inflater allFull fuel
        (fetch (imageFiles C (compressVolume allFull options info p (openDevice c)))) sect mem dev =
          some st ∧
      st.cp.dev.content = puts sect dev.content (savedSectors c p.bitmap) ∧
      st.cp.dev.pos = 512 * (sect + 8 * p.bitmap.length) ∧
      st.cp.maxindex ≤ 8 * ALLOCLG ∧
      (st.cp.maxindex = 8 * ALLOCLG ↔ ∃ s ∈ slicesOf p.bitmap, 8 * ALLOCLG - 1 ∈ setBits s) := by
  obtain ⟨parts, hparts, hitems⟩ := compressVolume_saved hinfo (hopt.headersRead hinfo p) c
  obtain ⟨st, hst, hdev, hmax, -⟩ := restore_image allFull hC hparts sect mem dev hfuel
  obtain ⟨hc, hpos⟩ := run_restoreRequests hparts.sectors
    (show (dev.exec allFull (.seekTo (512 * sect))).pos = 512 * (sect + 0) by simp [Req.target])
  have hbound : ∀ q ∈ parts, ∀ x ∈ q.items, x.1 < 8 * ALLOCLG := by
    intro q hq x hx
    obtain ⟨i, hi⟩ := List.getElem?_of_mem hq
    have hle := (hparts.readable i q hi).slice_le
    have := setBits_lt (List.of_mem_zip (show (x.1, x.2) ∈ (setBits q.slice).zip q.secs from hx)).1
    omega
  have hle : st.cp.maxindex ≤ 8 * ALLOCLG := by
    rw [hmax, ← Nat.lt_succ_iff, highest_lt_iff]
    refine ⟨by omega, fun x hx => ?_⟩
    obtain ⟨q, hq, hx⟩ := List.mem_flatMap.mp hx
    have := hbound q hq x hx
    omega
  refine ⟨st, hst, ?_, ?_, hle, ?_⟩
  · rw [hdev, run_cons, hc, hitems]
    rfl
  · rw [hdev, run_cons, hpos, hparts.slices_eq, slicesOf_flatten, Nat.add_zero]
  · have hlt := @highest_lt_iff 0 (8 * ALLOCLG) (parts.flatMap Part.items)
    rw [← hmax] at hlt
    rw [← hparts.slices_eq]
    constructor
    · intro heq
      by_contra hno
      have : st.cp.maxindex < 8 * ALLOCLG := by
        refine hlt.mpr ⟨by decide, fun x hx => ?_⟩
        obtain ⟨q, hq, hx⟩ := List.mem_flatMap.mp hx
        have hb := hbound q hq x hx
        have hm := (List.of_mem_zip (show (x.1, x.2) ∈ (setBits q.slice).zip q.secs from hx)).1
        by_contra hge
        exact hno ⟨q.slice, List.mem_map_of_mem hq,
          by rwa [show x.1 = 8 * ALLOCLG - 1 by omega] at hm⟩
      omega
    · rintro ⟨s, hs, hmem⟩
      obtain ⟨q, hq, rfl⟩ := List.mem_map.mp hs
      have hfst : q.items.map Prod.fst = setBits q.slice :=
        List.map_fst_zip (hparts.sectors q hq).secs_count.ge
      rw [← hfst] at hmem
      obtain ⟨x, hx, hx1⟩ := List.mem_map.mp hmem
      by_contra hne
      have := (hlt.mp (by omega)).2 x (List.mem_flatMap.mpr ⟨q, hq, hx⟩)
      omega

theorem savedSectors_length (c : Content) (bitmap : List Byte) :
    ∀ x ∈ savedSectors c bitmap, x.2.length = 512 := by
  intro x hx
  obtain ⟨g, _, rfl⟩ := List.mem_map.mp hx
  simp

theorem puts_saved_of_mem {c : Content} {bitmap : List Byte} {i : Nat} (hi : i ∈ setBits bitmap)
    (sect : Nat) (target : Content) :
    slice (puts sect target (savedSectors c bitmap)) (512 * (sect + i)) 512 =
      slice c (512 * i) 512 := by
  have hnd : ((savedSectors c bitmap).map Prod.fst).Nodup := by
    simpa [savedSectors, Function.comp_def] using setBits_nodup bitmap
  have hm : (i, slice c (512 * i) 512) ∈ savedSectors c bitmap := List.mem_map.mpr ⟨i, hi, by simp⟩
  have h := @puts_sector_of_mem sect _ target (savedSectors_length c bitmap) hnd _ hm
  simpa using h

theorem puts_saved_of_not_mem {c : Content} {bitmap : List Byte} {sect j : Nat}
    (hj : ∀ i ∈ setBits bitmap, j ≠ sect + i) (target : Content) :
    slice (puts sect target (savedSectors c bitmap)) (512 * j) 512 = slice target (512 * j) 512 := by
  refine puts_sector_of_not_mem target (savedSectors_length c bitmap) (fun x hx => ?_)
  obtain ⟨g, hg, rfl⟩ := List.mem_map.mp hx
  exact hj g hg

/-- Backup and restore copy exactly the sectors of the set bits. The bit index of
`flushToDisk` stays within the bitmap of the file; it comes to its end only after the
last bit of a full bitmap. -/
theorem image_round_trip {C : Codec} (hC : C.Correct) {options : Option (List Byte)} (hopt : NoKeywords options)
    {info : List Byte} (hinfo : info ∈ imagerInfos) (p : PARAMS) (V : List Sector)
    (hset : ∀ i ∈ setBits p.bitmap, i < V.length) (sect : Nat) (mem : Memory) (dev : Device) {fuel : Nat}
    (hfuel : imageFuel C (compressVolume allFull options info p (openDevice (volumeContent V))) ≤ fuel) :
    ∃ st, restore C.inflater allFull fuel
        (fetch (imageFiles C (compressVolume allFull options info p (openDevice (volumeContent V)))))
        sect mem dev = some st ∧
      (∀ i ∈ setBits p.bitmap, V[i]?.map Vector.toList = some (slice st.cp.dev.content (512 * (sect + i)) 512)) ∧
      (∀ j, (∀ i ∈ setBits p.bitmap, j ≠ sect + i) →
        slice st.cp.dev.content (512 * j) 512 = slice dev.content (512 * j) 512) ∧
      st.cp.maxindex ≤ 8 * ALLOCLG ∧
      (st.cp.maxindex = 8 * ALLOCLG ↔ ∃ s ∈ slicesOf p.bitmap, 8 * ALLOCLG - 1 ∈ setBits s) := by
  obtain ⟨st, hst, hc, -, hmax, hiff⟩ := restore_saved hC hopt hinfo p
    (volumeContent V) sect mem dev hfuel
  refine ⟨st, hst, fun i hi => ?_, fun j hj => ?_, hmax, hiff⟩
  · obtain ⟨s, hs⟩ : ∃ s, V[i]? = some s := ⟨_, List.getElem?_eq_getElem (hset i hi)⟩
    rw [hc, puts_saved_of_mem hi, volumeContent_slice hs, hs]
    rfl
  · rw [hc, puts_saved_of_not_mem hj]

theorem noKeywords_none : NoKeywords none := by
  intro i
  refine ⟨fun h => ?_, fun h => ?_⟩
  · exact absurd (List.infix_nil.mp h) (by decide)
  · exact absurd (List.infix_nil.mp h) (by decide)

/-- Sectors 0 and 2 of three are allocated. -/
theorem image_round_trip_three_sectors :
    ∃ st, restore storedCodec.inflater allFull
        (imageFuel storedCodec (compressVolume allFull none (ascii "FAT32=1") ⟨[0x05], 3, by decide, by decide⟩
          (openDevice (volumeContent (List.replicate 3 (Vector.replicate 512 0x55))))))
        (fetch (imageFiles storedCodec (compressVolume allFull none (ascii "FAT32=1")
          ⟨[0x05], 3, by decide, by decide⟩
          (openDevice (volumeContent (List.replicate 3 (Vector.replicate 512 0x55)))))))
        63 freshMemory (openDevice (fun _ => 0)) = some st ∧
      some (slice st.cp.dev.content (512 * (63 + 2)) 512) = some (Vector.replicate 512 0x55).toList ∧
      slice st.cp.dev.content (512 * (63 + 1)) 512 = slice (fun _ => 0) (512 * (63 + 1)) 512 := by
  have hbits : setBits [0x05] = [0, 2] := by decide
  obtain ⟨st, hst, hset, hother, -⟩ := image_round_trip storedCodec_correct noKeywords_none
    (by decide : ascii "FAT32=1" ∈ imagerInfos) ⟨[0x05], 3, by decide, by decide⟩
    (List.replicate 3 (Vector.replicate 512 0x55)) (by rw [hbits]; decide) 63 freshMemory
    (openDevice (fun _ => 0)) (Nat.le_refl _)
  refine ⟨st, hst, ?_, ?_⟩
  · exact (hset 2 (by rw [hbits]; decide)).symm
  · exact hother (63 + 1) (by rw [hbits]; decide)

theorem fullBitmap_length (b : Byte) : (List.replicate (ALLOCLG - 1) 0 ++ [b]).length = ALLOCLG := by
  rw [List.length_append, List.length_replicate, List.length_singleton]
  rfl

/-- A full bitmap of which the last bit only is set. -/
def lastBitParams : PARAMS where
  bitmap := List.replicate (ALLOCLG - 1) 0 ++ [0x80]
  nb_sect := 176128
  nb_sect_lt := by decide
  nb_lt := by rw [fullBitmap_length]; decide

theorem lastBitParams_setBits : setBits lastBitParams.bitmap = [8 * ALLOCLG - 1] := by
  have hzero : setBits (List.replicate (ALLOCLG - 1) 0) = [] := setBits_zeroPad (ALLOCLG - 1) []
  have hlast : setBits [0x80] = [7] := by decide
  rw [lastBitParams, setBits_append, hzero, hlast, List.length_replicate]
  rfl

/-- There the bit index of `flushToDisk` does reach `8 * ALLOCLG`. -/
theorem bit_index_reaches_end :
    (∀ i ∈ setBits lastBitParams.bitmap, i < (List.replicate 176128 (Vector.replicate 512 0x55) : List Sector).length) ∧
    ∃ st, restore storedCodec.inflater allFull
        (imageFuel storedCodec (compressVolume allFull none [] lastBitParams
          (openDevice (volumeContent (List.replicate 176128 (Vector.replicate 512 0x55))))))
        (fetch (imageFiles storedCodec (compressVolume allFull none [] lastBitParams
          (openDevice (volumeContent (List.replicate 176128 (Vector.replicate 512 0x55)))))))
        0 freshMemory (openDevice (fun _ => 0)) = some st ∧ st.cp.maxindex = 8 * ALLOCLG := by
  refine ⟨?_, ?_⟩
  · intro i hi
    rw [lastBitParams_setBits, List.mem_singleton] at hi
    rw [hi, List.length_replicate]
    decide
  · obtain ⟨st, hst, -, -, -, hiff⟩ := restore_saved storedCodec_correct noKeywords_none
      nil_mem_imagerInfos lastBitParams (volumeContent
        (List.replicate 176128 (Vector.replicate 512 0x55))) 0 freshMemory
      (openDevice (fun _ => 0)) (Nat.le_refl _)
    refine ⟨st, hst, hiff.mpr ⟨lastBitParams.bitmap, ?_, by rw [lastBitParams_setBits]; simp⟩⟩
    have hlen : lastBitParams.bitmap.length = ALLOCLG := fullBitmap_length 0x80
    rw [slicesOf, hlen, show blockCount ALLOCLG = 0 + 1 by decide, bitmapSlices,
      List.take_of_length_le hlen.le]
    simp

theorem gappedSectors_nb : 56 < 2 ^ 64 := by decide

theorem gappedSectors_lt :
    blockCount (List.replicate 6 0xff ++ [0x0d] : List Byte).length < 2 ^ 31 := by decide

/-- 56 sectors, of which 51 are allocated: more than a buffer holds, with a gap among the rest. -/
def gappedSectors : PARAMS := ⟨List.replicate 6 0xff ++ [0x0d], 56, gappedSectors_nb, gappedSectors_lt⟩

theorem gappedSectors_slices : slicesOf gappedSectors.bitmap = [gappedSectors.bitmap] := by decide

theorem gappedSectors_setBits : setBits gappedSectors.bitmap = List.range 49 ++ [50, 51] := by decide

def smallImage : Image := compressVolume allFull none [] gappedSectors (openDevice (fun _ => 0x55))

theorem smallImage_file :
    ∃ calls p, smallImage.files = [calls] ∧ FileData calls p ∧ p.Shaped ∧
      p.slice = gappedSectors.bitmap ∧
      (streamInput calls).length = 50176 ∧ (storedDeflate calls).length = 50187 := by
  obtain ⟨calls, p, hfiles, hfile, hshape, hslice, -, hlen⟩ :=
    compressVolume_single allFull none nil_mem_imagerInfos
    (openDevice (fun _ => 0x55)) gappedSectors_slices
  rw [gappedSectors_setBits] at hlen
  replace hlen : (streamInput calls).length = 50176 := hlen
  exact ⟨calls, p, hfiles, hfile, hshape, hslice, hlen, by rw [storedDeflate_length (by omega), hlen]⟩

end PulseImaging
