import PulseImaging.BootRestore
import PulseImaging.Decompress
import PulseImaging.RoundTrip

/-! A whole image through `decompress`, one process for each file. On a file that is
long enough it does what `restore` does; on an empty one it stores the clear bits as
sectors of zeros. -/

namespace PulseImaging

/-- `/tmp/offset` as `decompress` leaves it. -/
def offsetText (offset : Nat) : List Byte := decimal offset ++ ascii "\n"

/-- The offset read from the third argument, 0 if there is no number. -/
def offsetArg (text : List Byte) : Nat := (((scanInt text).map Prod.fst).getD 0).toNat

/-- `decompress` run on each file, at the offset that the run before has left. -/
def decompressFiles (Z : Inflater) (fuel : Nat) :
    List (List Byte) → List Byte → OutFile → Option Int → Option (List Byte × OutFile)
  | [], text, f, _ => some (text, f)
  | file :: files, text, f, blocks =>
    (decompress Z fuel (fun _ => some file) (offsetArg text) fuel 0
        ⟨some f, blocks, freshMemory.buffer, freshMemory.bitmap⟩).bind (fun x =>
      x.2.fo.bind (fun f => decompressFiles Z fuel files (offsetText x.1) f x.2.blocks))

theorem offsetArg_offsetText (n : Nat) : offsetArg (offsetText n) = n := by
  have hrest : ∀ b ∈ (ascii "\n").head?, isDigit b = false := by simp [ascii, isDigit]
  rw [offsetArg, offsetText, scanInt_decimal n hrest]
  rfl

/-! ### The output file -/

def OutFile.skip (f : OutFile) (n : Nat) : OutFile := (fun f => OutFile.fill f 512)^[n] f

/-- The given sectors at the given bits. -/
def OutFile.visit (f : OutFile) (cur : Nat) : List (Nat × List Byte) → OutFile
  | [] => f
  | (g, data) :: items => OutFile.visit ((f.skip (g - cur)).write data) (g + 1) items

def OutFile.unpack (f : OutFile) (p : Part) : OutFile :=
  if p.lg ≠ 0 ∧ p.lg * 8 > visitEnd 0 (writes p.items) then
    (f.visit 0 p.items).fill (512 * (p.lg * 8 - visitEnd 0 (writes p.items)).toNat)
  else f.visit 0 p.items

theorem OutFile.visit_append (f : OutFile) (cur : Nat) (a b : List (Nat × List Byte)) :
    f.visit cur (a ++ b) = (f.visit cur a).visit (visitEnd cur (writes a)) b := by
  induction a generalizing f cur with
  | nil => rfl
  | cons x a ih => exact ih _ _

theorem OutFile.skip_succ (f : OutFile) (n : Nat) : f.skip (n + 1) = (f.fill 512).skip n := rfl

/-! ### One file -/

/-- The state after the given sectors have been sent to the given bits. -/
def DecompressParams.after (t : DecompressParams) (items : List (Nat × List Byte)) : DecompressParams :=
  { t with
    bitindex := visitEnd t.bitindex (writes items)
    fo := t.fo.map (fun f => f.visit t.bitindex items)
    offset := t.offset + 512 * (visitEnd t.bitindex (writes items) - t.bitindex) }

theorem decompress_after_append (t : DecompressParams) {a b : List (Nat × List Byte)}
    (h : Ascends t.bitindex ((a ++ b).map Prod.fst)) : (t.after a).after b = t.after (a ++ b) := by
  obtain ⟨ha, hb⟩ := ascends_append h
  have h1 := le_visitEnd ha
  have h2 := le_visitEnd hb
  simp only [DecompressParams.after, writes_append, visitEnd_append, Option.map_map,
    DecompressParams.mk.injEq, true_and, and_true]
  refine ⟨?_, by omega⟩
  congr 1
  funext f
  exact (OutFile.visit_append f _ a b).symm

theorem decompress_skipClear {bit : List Byte} {g : Nat} {rest : List Nat} {fuel : Nat}
    {t : DecompressParams} (hrem : remaining bit t.bitindex = g :: rest)
    (hf : 8 * bit.length < fuel + t.bitindex) :
    t.skipClear bit fuel = some { t with
      bitindex := g
      fo := t.fo.map (fun f => f.skip (g - t.bitindex))
      offset := t.offset + 512 * (g - t.bitindex) } := by
  induction fuel generalizing t with
  | zero =>
    obtain ⟨hle, hlt, -⟩ := remaining_tail hrem
    omega
  | succ fuel ih =>
    obtain ⟨hle, hlt, -⟩ := remaining_tail hrem
    obtain ⟨b, hb⟩ : ∃ b, (bits bit)[t.bitindex]? = some b :=
      ⟨_, List.getElem?_eq_getElem (by rw [bits_length]; omega)⟩
    rw [remaining_step hb] at hrem
    rw [DecompressParams.skipClear, testBit_eq, hb, Option.bind_some]
    cases b with
    | true =>
      rw [if_pos rfl, List.cons.injEq] at hrem
      simp [← hrem.1, OutFile.skip]
    | false =>
      rw [if_neg (by simp)] at hrem
      have hle' := (remaining_tail hrem).1
      have hn : g - t.bitindex = g - (t.bitindex + 1) + 1 := by omega
      have h := ih (t := t.skipBit) hrem (by simp only [DecompressParams.skipBit]; omega)
      rw [if_neg (by simp), h]
      simp only [DecompressParams.skipBit, Option.map_map, hn, Function.comp_def, OutFile.skip_succ,
        Option.some.injEq, DecompressParams.mk.injEq, true_and, and_true]
      omega

/-- With enough set bits left, sector after sector goes to the next set bit. -/
theorem decompress_flushLoop {buff bit junk : List Byte} {secs : List (List Byte)}
    {gs rest : List Nat} {ptr : Nat} {t : DecompressParams}
    (hrem : remaining bit t.bitindex = gs ++ rest) (hcount : secs.length = gs.length)
    (hlen : ∀ s ∈ secs, s.length = 512) (hbuf : buff.drop ptr = secs.flatten ++ junk) :
    t.flushLoop buff bit secs.length ptr = some (t.after (gs.zip secs)) := by
  induction secs generalizing gs ptr t with
  | nil =>
    have hgs : gs = [] := List.length_eq_zero_iff.mp hcount.symm
    subst hgs
    simp [DecompressParams.flushLoop, DecompressParams.after, writes, visitEnd, OutFile.visit]
  | cons sec secs ih =>
    cases gs with
    | nil => simp at hcount
    | cons g gs =>
      obtain ⟨hle, -, htail⟩ := remaining_tail hrem
      have hs := hlen sec (by simp)
      have hsec : (buff.drop ptr).take 512 = sec := by
        rw [hbuf, List.flatten_cons, List.append_assoc, List.take_left' hs]
      have hdrop : buff.drop (ptr + 512) = secs.flatten ++ junk := by
        rw [← List.drop_drop, hbuf, List.flatten_cons, List.append_assoc, List.drop_left' hs]
      have hasc : Ascends (g + 1) ((writes (gs.zip secs)).map Prod.fst) := by
        rw [writes_fst, List.map_fst_zip (by simpa using hcount.ge)]
        exact ascends_of_remaining htail
      have hge := le_visitEnd hasc
      rw [List.length_cons, DecompressParams.flushLoop, decompress_skipClear hrem (by omega),
        Option.bind_some, hsec,
        ih (by exact htail) (by simpa using hcount) (fun s h => hlen s (by simp [h])) hdrop]
      simp only [DecompressParams.after, DecompressParams.writeBit, Option.map_map,
        List.zip_cons_cons, writes,
        List.map_cons, visitEnd, OutFile.visit, Function.comp_def, Option.some.injEq,
        DecompressParams.mk.injEq, true_and, and_true]
      simp only [writes] at hge
      omega

section Attempt

variable {p : Part} {Z : Inflater} {rel : Z.State → List Byte → List Byte → Prop} {file : List Byte}

/-- The state after the header and `n` sectors of a file. -/
theorem decompressSink_takes (hp : p.Sectors) (t : DecompressParams) :
    decompressSink.Takes p t (fun n => (decompressSink.header t p.header).after
      (p.items.take n)) where
  header := by simp [DecompressParams.after, decompressSink, writes, visitEnd, OutFile.visit]
  flush {n m buff junk} hnm hm hbuf := by
    obtain ⟨gs, rest, hsecs, hgs, hrem, hitems, hasc⟩ := Part.items_next hp hnm hm
    have hbuff : buff.drop 0 = ((p.secs.drop n).take (m - n)).flatten ++ junk := by simpa using hbuf
    have hflush := decompress_flushLoop (t := (decompressSink.header t p.header).after
      (p.items.take n))
      hrem (hsecs.trans hgs.symm)
      (fun s hs => hp.secs_length s (List.mem_of_mem_drop (List.mem_of_mem_take hs))) hbuff
    rw [decompress_after_append _ hasc, ← hitems, hsecs] at hflush
    simp only [decompressSink, DecompressParams.flush, show (512 * (m - n) + 511) / 512 =
      m - n by omega]
    exact hflush

/-- A complete file is taken, and the offset written is the end of its extent. -/
theorem decompressAttempt_taken (hZ : Z.Decodes rel) (hr : p.Shaped) (hp : p.Sectors)
    (hrel : rel Z.init file p.output) {fuel : Nat} (hfuel : file.length + p.output.length < fuel)
    {st : DecompressState} (hbuf : st.buffer.length = TOTALLG) {f : OutFile}
    (hfo : st.fo = some f) (offset : Nat) :
    ∃ st', decompressAttempt Z fuel file offset st = some (some (offset + 512 * p.extent), st') ∧
      st'.fo = some ((OutFile.mk f.content f.size offset).unpack p) := by
  obtain ⟨s, hpass, -, hcore⟩ := pass_complete hZ hr hp
    (decompressSink_takes hp (st.params offset)) hbuf hrel hfuel
  rw [Part.coreAt, items_take_all] at hcore
  simp only [decompressAttempt, decompressPass]
  rw [hpass, Option.map_some]
  simp only [ZRet.code, hcore]
  by_cases hfill : p.lg ≠ 0 ∧ p.lg * 8 > visitEnd 0 (writes p.items)
  · have hlg : 512 * visitEnd 0 (writes p.items) + 512 *
        (p.lg * 8 - visitEnd 0 (writes p.items)).toNat = 512 * (p.lg * 8).toNat := by omega
    simp [DecompressParams.lastFill, DecompressParams.after, decompressSink, DecompressState.params,
      hfo, OutFile.unpack, Part.extent, hfill, ← hlg, Nat.add_assoc]
  · simp [DecompressParams.lastFill, DecompressParams.after, decompressSink, DecompressState.params,
      hfo, OutFile.unpack, Part.extent, hfill]

end Attempt

/-! ### All files of an image -/

/-- Files taken one after the other, the first at `offset`. -/
def OutFile.unpackAll (f : OutFile) (offset : Nat) : List Part → OutFile
  | [] => f
  | p :: ps => OutFile.unpackAll ((OutFile.mk f.content f.size offset).unpack p) (offset + 512 * p.extent) ps

theorem decompressFiles_parts {C : Codec} {rel : C.inflater.State → List Byte → List Byte → Prop}
    (hZ : C.inflater.Decodes rel)
    (hdef : ∀ calls, Finished calls → rel C.inflater.init (C.deflate calls) (streamInput calls))
    {files : List (List DeflateCall)} {parts : List Part} (hdata : List.Forall₂ FileData files parts)
    (hshape : ∀ p ∈ parts, p.Shaped) {fuel : Nat}
    (hfuel : ∀ calls ∈ files, (C.deflate calls).length + (streamInput calls).length < fuel)
    (offset : Nat) (f : OutFile) (blocks : Option Int) :
    decompressFiles C.inflater fuel (files.map C.deflate) (offsetText offset) f blocks =
      some (offsetText (offset + 512 * (parts.map Part.extent).sum), f.unpackAll offset parts) := by
  induction hdata generalizing offset f blocks with
  | nil => rfl
  | @cons calls p files parts hfile hdata ih =>
    have hrel := hdef calls hfile.finished
    have hlt := hfuel calls (by simp)
    rw [hfile.input] at hrel hlt
    obtain ⟨turns, hturns⟩ : ∃ n, fuel = n + 1 := ⟨fuel - 1, by omega⟩
    obtain ⟨st, hatt, hfo⟩ := decompressAttempt_taken hZ (hshape p (by simp)) hfile.sectors hrel hlt
      (show (DecompressState.mk
        (some f) blocks freshMemory.buffer freshMemory.bitmap).buffer.length = TOTALLG from
        freshMemory.buffer_length) rfl offset
    have hrun : decompress C.inflater fuel (fun _ => some (C.deflate calls)) offset fuel 0
        ⟨some f, blocks, freshMemory.buffer, freshMemory.bitmap⟩ =
          some (offset + 512 * p.extent, st) := by
      conv_lhs => arg 5; rw [hturns]
      rw [decompress, Option.bind_some, hatt, Option.bind_some]
    have h := ih (fun q hq => hshape q (by simp [hq])) (fun c hc => hfuel c (by simp [hc]))
      (offset + 512 * p.extent) ((OutFile.mk f.content f.size offset).unpack p) st.blocks
    rw [List.map_cons, decompressFiles, offsetArg_offsetText, hrun, Option.bind_some, hfo,
      Option.bind_some, h, OutFile.unpackAll, List.map_cons, List.sum_cons]
    congr 3
    omega

/-! ### A file that is long enough -/

theorem skip_inside {n : Nat} {f : OutFile} (h : f.pos + 512 * n ≤ f.size) :
    f.skip n = { f with pos := f.pos + 512 * n } := by
  induction n generalizing f with
  | zero => rfl
  | succ n ih =>
    have hfill : f.fill 512 = { f with pos := f.pos + 512 } := by
      rw [OutFile.fill, if_neg]
      simp only [OutFile.eof, beq_iff_eq]
      omega
    rw [OutFile.skip_succ, hfill, ih (by dsimp only; omega)]
    simp only [OutFile.mk.injEq, true_and]
    omega

theorem visit_inside {base cur : Nat} {items : List (Nat × List Byte)} {f : OutFile}
    (ha : Ascends cur (items.map Prod.fst)) (hlen : ∀ x ∈ items, x.2.length = 512)
    (hpos : f.pos = 512 * (base + cur))
    (hsize : 512 * (base + visitEnd cur (writes items)) ≤ f.size) :
    f.visit cur items =
      ⟨puts base f.content items, f.size, 512 * (base + visitEnd cur (writes items))⟩ := by
  induction items generalizing f cur with
  | nil => rw [OutFile.visit, puts, List.foldl_nil, writes, List.map_nil, visitEnd, ← hpos]
  | cons x items ih =>
    have hx := hlen x (by simp)
    have hle := ha.1
    have hend : x.1 + 1 ≤ visitEnd (x.1 + 1) (writes items) :=
      le_visitEnd (by rw [writes_fst]; exact ha.2)
    have hv : visitEnd cur (writes (x :: items)) = visitEnd (x.1 + 1) (writes items) := rfl
    rw [hv] at hsize ⊢
    have hwrite : (f.skip (x.1 - cur)).write x.2 =
        ⟨patch f.content (512 * (base + x.1)) x.2, f.size, 512 * (base + (x.1 + 1))⟩ := by
      rw [skip_inside (by omega), OutFile.write]
      simp only [OutFile.mk.injEq]
      refine ⟨?_, by omega, by omega⟩
      congr 1
      omega
    have h := ih ha.2 (fun y hy => hlen y (by simp [hy]))
      (f := ⟨patch f.content (512 * (base + x.1)) x.2, f.size, 512 * (base + (x.1 + 1))⟩) rfl hsize
    rw [OutFile.visit, hwrite, h]
    rfl

theorem unpack_inside {p : Part} (hp : p.Sectors) (hlg : p.lg = p.slice.length) {f : OutFile}
    {base : Nat} (hpos : f.pos = 512 * base) (hsize : 512 * (base + 8 * p.slice.length) ≤ f.size) :
    f.unpack p = ⟨puts base f.content p.items, f.size, 512 * (base + 8 * p.slice.length)⟩ := by
  have hle := visitEnd_items_le p
  have hvisit := visit_inside (f := f) (Part.items_ascends hp) (Part.items_length hp)
    hpos (by omega)
  rw [OutFile.unpack, hlg, hvisit]
  split
  · rename_i hfill
    rw [OutFile.fill, if_neg (by simp only [OutFile.eof, beq_iff_eq]; omega)]
    simp only [OutFile.mk.injEq, true_and]
    omega
  · simp only [OutFile.mk.injEq, true_and]
    omega

theorem unpackAll_inside {parts : List Part} (hparts : ∀ p ∈ parts, p.Sectors)
    (hlg : ∀ p ∈ parts, p.lg = p.slice.length) {f : OutFile} {S base : Nat}
    (hsize : 512 * (S + base + 8 * ((parts.map Part.slice).flatten).length) ≤ f.size) :
    (f.unpackAll (512 * (S + base)) parts).content = puts S f.content (globalItems base parts) ∧
      (f.unpackAll (512 * (S + base)) parts).size = f.size := by
  induction parts generalizing f base with
  | nil => exact ⟨rfl, rfl⟩
  | cons p ps ih =>
    have hl := hlg p (by simp)
    simp only [List.map_cons, List.flatten_cons, List.length_append] at hsize
    have hunpack := unpack_inside (hparts p (by simp)) hl
      (f := ⟨f.content, f.size, 512 * (S + base)⟩) rfl
      (by dsimp only; omega)
    have hnext : 512 * (S + base) + 512 * p.extent = 512 * (S + (base + 8 * p.slice.length)) := by
      rw [extent_eq hl]
      omega
    have h := ih (fun q hq => hparts q (by simp [hq])) (fun q hq => hlg q (by simp [hq]))
      (f := ⟨puts (S + base) f.content p.items, f.size, 512 * (S + base + 8 * p.slice.length)⟩)
      (show 512 * (S + (base + 8 * p.slice.length) + _) ≤ _ by dsimp only; omega)
    rw [OutFile.unpackAll, hunpack, hnext, globalItems, puts_append, puts_shift]
    exact h

/-! ### An empty file -/

theorem zeros_append (a b : Nat) :
    zeros a ++ zeros b = zeros (a + b) := List.replicate_append_replicate

theorem OutFile.write_write (f : OutFile) (a b : List Byte) :
    (f.write a).write b = f.write (a ++ b) := by
  simp only [OutFile.write, patch_append, List.length_append, OutFile.mk.injEq, true_and]
  omega

theorem OutFile.eof_write {f : OutFile} (h : f.eof = true) (a : List Byte) :
    (f.write a).eof = true := by
  simp only [OutFile.eof, beq_iff_eq, OutFile.write] at h ⊢
  omega

theorem fillZeros_eq {fuel bytes : Nat} (hpos : 0 < fuel) (hfuel : bytes ≤ 512 * fuel) (f : OutFile) :
    fillZeros fuel f bytes = f.write (zeros bytes) := by
  induction fuel generalizing f bytes with
  | zero => omega
  | succ fuel ih =>
    rw [fillZeros]
    split
    · rw [ih (by omega) (by omega), OutFile.write_write, zeros_append,
        show 512 + (bytes - 512) = bytes by omega]
    · rfl

theorem fill_eof {f : OutFile} (h : f.eof = true) (n : Nat) : f.fill n = f.write (zeros n) := by
  rw [OutFile.fill, if_pos h, fillZeros_eq (Nat.succ_pos n) (by omega)]

theorem OutFile.write_nil {f : OutFile} (h : f.eof = true) : f.write [] = f := by
  obtain ⟨c, size, pos⟩ := f
  simp only [OutFile.eof, beq_iff_eq] at h
  simp only [OutFile.write, patch_nil, List.length_nil, Nat.add_zero, h, Nat.max_self]

theorem skip_eof {f : OutFile} (h : f.eof = true) (n : Nat) :
    f.skip n = f.write (zeros (512 * n)) := by
  induction n generalizing f with
  | zero => exact (OutFile.write_nil h).symm
  | succ n ih =>
    have hf := fill_eof h 512
    rw [OutFile.skip_succ, hf, ih (OutFile.eof_write h _), OutFile.write_write, zeros_append,
      show 512 + 512 * n = 512 * (n + 1) by omega]

/-- The sectors from `cur` on as they come one after the other in a file, zeros for the
bits that are not given. -/
def dense (cur : Nat) : List (Nat × List Byte) → List Byte
  | [] => []
  | (g, data) :: items => zeros (512 * (g - cur)) ++ data ++ dense (g + 1) items

def Part.dense (p : Part) : List Byte :=
  PulseImaging.dense 0 p.items ++ zeros (512 * (8 * p.slice.length - visitEnd 0 (writes p.items)))

theorem visit_eof {f : OutFile} (h : f.eof = true) (cur : Nat) (items : List (Nat × List Byte)) :
    f.visit cur items = f.write (dense cur items) := by
  induction items generalizing f cur with
  | nil => exact (OutFile.write_nil h).symm
  | cons x items ih =>
    rw [OutFile.visit, skip_eof h, OutFile.write_write, ih (OutFile.eof_write h _),
      OutFile.write_write]
    rfl

theorem unpack_eof {p : Part} (hlg : p.lg = p.slice.length) {f : OutFile} (h : f.eof = true) :
    f.unpack p = f.write p.dense := by
  have hle := visitEnd_items_le p
  rw [OutFile.unpack, hlg, visit_eof h, Part.dense, ← OutFile.write_write]
  split
  · rename_i hfill
    rw [fill_eof (OutFile.eof_write h _)]
    congr 3
    omega
  · rename_i hfill
    rw [show 8 * p.slice.length - visitEnd 0 (writes p.items) = 0 by omega]
    exact (OutFile.write_nil (OutFile.eof_write h _)).symm

theorem dense_length {cur : Nat} {items : List (Nat × List Byte)}
    (ha : Ascends cur (items.map Prod.fst)) (hlen : ∀ x ∈ items, x.2.length = 512) :
    512 * cur + (dense cur items).length = 512 * visitEnd cur (writes items) := by
  induction items generalizing cur with
  | nil => rfl
  | cons x items ih =>
    have h := ih ha.2 (fun y hy => hlen y (by simp [hy]))
    have hx := hlen x (by simp)
    have hle := ha.1
    simp only [dense, zeros, List.length_append, List.length_replicate, hx]
    simp only [writes, List.map_cons, visitEnd] at h ⊢
    omega

theorem Part.dense_length {p : Part} (hp : p.Sectors) :
    p.dense.length = 512 * (8 * p.slice.length) := by
  have h := PulseImaging.dense_length (Part.items_ascends hp) (Part.items_length hp)
  have hle := visitEnd_items_le p
  simp only [Part.dense, zeros, List.length_append, List.length_replicate]
  omega

theorem unpackAll_eof {parts : List Part} (hparts : ∀ p ∈ parts, p.Sectors)
    (hlg : ∀ p ∈ parts, p.lg = p.slice.length) {f : OutFile} (h : f.eof = true) :
    f.unpackAll f.pos parts = f.write (parts.flatMap Part.dense) := by
  induction parts generalizing f with
  | nil => exact (OutFile.write_nil h).symm
  | cons p ps ih =>
    have hl := hlg p (by simp)
    have hpos : f.pos + 512 * p.extent = (f.write p.dense).pos := by
      rw [extent_eq hl, OutFile.write, Part.dense_length (hparts p (by simp))]
    rw [OutFile.unpackAll, unpack_eof hl h, hpos, ih (fun q hq => hparts q (by simp [hq]))
      (fun q hq => hlg q (by simp [hq])) (OutFile.eof_write h _), OutFile.write_write,
      List.flatMap_cons]

theorem dense_append (cur : Nat) (a b : List (Nat × List Byte)) :
    dense cur (a ++ b) = dense cur a ++ dense (visitEnd cur (writes a)) b := by
  induction a generalizing cur with
  | nil => rfl
  | cons x a ih =>
    rw [List.cons_append, dense, ih, dense, ← List.append_assoc]
    rfl

theorem dense_shift (k cur : Nat) (items : List (Nat × List Byte)) :
    dense (k + cur) (items.map (fun x => (k + x.1, x.2))) = dense cur items ∧
      visitEnd (k + cur) (writes (items.map (fun x => (k + x.1, x.2)))) =
        k + visitEnd cur (writes items) := by
  induction items generalizing cur with
  | nil => exact ⟨rfl, rfl⟩
  | cons x items ih =>
    obtain ⟨hd, hv⟩ := ih (x.1 + 1)
    refine ⟨?_, hv⟩
    rw [List.map_cons, dense, dense, Nat.add_assoc, hd, show k + x.1 - (k + cur) = x.1 - cur by omega]

/-- Clear bits at the end of one file and at the start of the next are one gap. -/
theorem zeros_dense {cur v n : Nat} {items : List (Nat × List Byte)} (hv : v ≤ cur) (hn : cur ≤ n)
    (ha : Ascends cur (items.map Prod.fst)) :
    zeros (512 * (cur - v)) ++ (dense cur items ++ zeros (512 * (n - visitEnd cur (writes items)))) =
      dense v items ++ zeros (512 * (n - visitEnd v (writes items))) := by
  cases items with
  | nil =>
    simp only [dense, writes, List.map_nil, visitEnd, List.nil_append, zeros_append]
    congr 1
    omega
  | cons x items =>
    have hle := ha.1
    simp only [dense, ← List.append_assoc, zeros_append]
    rw [show 512 * (cur - v) + 512 * (x.1 - cur) = 512 * (x.1 - v) by omega]
    rfl

theorem dense_parts {parts : List Part} (hparts : ∀ p ∈ parts, p.Sectors) (base : Nat) :
    parts.flatMap Part.dense = dense base (globalItems base parts) ++
      zeros (512 * (base + 8 * ((parts.map Part.slice).flatten).length -
        visitEnd base (writes (globalItems base parts)))) := by
  induction parts generalizing base with
  | nil => simp [globalItems, dense, writes, visitEnd, zeros]
  | cons p ps ih =>
    have hps : ∀ q ∈ ps, q.Sectors := fun q hq => hparts q (by simp [hq])
    obtain ⟨hd, hv⟩ := dense_shift base 0 p.items
    rw [Nat.add_zero] at hd hv
    have hle := visitEnd_items_le p
    have hasc : Ascends (base + 8 * p.slice.length)
        ((globalItems (base + 8 * p.slice.length) ps).map Prod.fst) := by
      rw [globalItems_fst hps, globalBits_eq]
      exact (setBits_ascends _).shift _
    have hgap := zeros_dense (v := base + visitEnd 0 (writes p.items))
      (n := base + 8 * p.slice.length + 8 * ((ps.map Part.slice).flatten).length) (by omega)
        (by omega) hasc
    rw [List.flatMap_cons, ih hps, Part.dense, ← hd, List.append_assoc, globalItems, dense_append,
      hv, writes_append,
      visitEnd_append, hv, List.map_cons, List.flatten_cons, List.length_append, List.append_assoc,
      show base + 8 * (p.slice.length + ((ps.map Part.slice).flatten).length) =
        base + 8 * p.slice.length + 8 * ((ps.map Part.slice).flatten).length by omega, ← hgap]
    congr 3
    omega

theorem flatMap_zeros {F : Nat → List Byte} {l : List Nat} (h : ∀ j ∈ l, F j = zeros 512) :
    l.flatMap F = zeros (512 * l.length) := by
  induction l with
  | nil => rfl
  | cons j l ih =>
    rw [List.flatMap_cons, h j (by simp), ih (fun i hi => h i (by simp [hi])), zeros_append,
      List.length_cons]
    congr 1
    omega

/-- Sector by sector: the data given for a set bit, zeros for every other bit. -/
theorem dense_sectors {F : Nat → List Byte} {cur n : Nat} {items : List (Nat × List Byte)}
    (ha : Ascends cur (items.map Prod.fst)) (hn : visitEnd cur (writes items) ≤ n)
    (hin : ∀ x ∈ items, F x.1 = x.2)
    (hout : ∀ j, cur ≤ j → j ∉ items.map Prod.fst → F j = zeros 512) :
    dense cur items ++ zeros (512 * (n - visitEnd cur (writes items))) =
      (List.range' cur (n - cur)).flatMap F := by
  induction items generalizing cur with
  | nil =>
    rw [flatMap_zeros (fun j hj => hout j (List.mem_range'_1.mp hj).1 (by simp)), List.length_range']
    rfl
  | cons x items ih =>
    have hle := ha.1
    have hend : x.1 + 1 ≤ visitEnd (x.1 + 1) (writes items) :=
      le_visitEnd (by rw [writes_fst]; exact ha.2)
    have hv : visitEnd cur (writes (x :: items)) = visitEnd (x.1 + 1) (writes items) := rfl
    rw [hv] at hn ⊢
    have hgap : (List.range' cur (x.1 - cur)).flatMap F = zeros (512 * (x.1 - cur)) := by
      rw [flatMap_zeros, List.length_range']
      intro j hj
      have hj' := List.mem_range'_1.mp hj
      refine hout j hj'.1 (fun hm => ?_)
      rcases List.mem_cons.mp hm with rfl | hm
      · omega
      · have := ha.2.mem_le hm
        omega
    have hrest := ih ha.2 hn (fun y hy => hin y (by simp [hy])) (fun j hj hm => hout j (by omega) (by
      rw [List.map_cons, List.mem_cons]
      rintro (rfl | h)
      · omega
      · exact hm h))
    have hsplit : List.range' cur (n - cur) =
        List.range' cur (x.1 - cur) ++ x.1 :: List.range' (x.1 + 1) (n - (x.1 + 1)) := by
      rw [show n - cur = (x.1 - cur) + (n - (x.1 + 1) + 1) by omega, ← List.range'_append_1,
        List.range'_succ, show cur + (x.1 - cur) = x.1 by omega]
    rw [hsplit, List.flatMap_append, List.flatMap_cons, hgap, hin x (by simp), ← hrest, dense]
    simp only [List.append_assoc]

/-- `ALLOCTABLELG` as the readers find it in the header of a file. -/
def headerLg (calls : List DeflateCall) : Nat :=
  ((headerField alloctablelgKey ((streamInput calls).take TOTALLG)).getD 0).toNat

/-- The number of bits in the bitmaps of all files. -/
def imageSectors (image : Image) : Nat := (image.files.map (fun calls => 8 * headerLg calls)).sum

theorem FileData.headerLg_eq {calls : List DeflateCall} {p : Part} (h : FileData calls p)
    (hr : p.Shaped) (hlg : p.lg = p.slice.length) : headerLg calls = p.slice.length := by
  rw [headerLg, h.input, output_header hr, ← Part.lg, hlg, Int.toNat_natCast]

theorem PartsOf.shaped {files : List (List DeflateCall)} {slices : List (List Byte)}
    {parts : List Part} (h : PartsOf files slices parts) :
    ∀ p ∈ parts, p.Shaped ∧ p.lg = p.slice.length := by
  intro p hp
  obtain ⟨i, hi⟩ := List.getElem?_of_mem hp
  have hr := h.readable i p hi
  exact ⟨hr.toShaped, by rw [Part.lg, hr.alloctablelg, Option.getD_some]⟩

theorem imageSectors_eq {image : Image} {slices : List (List Byte)} {parts : List Part}
    (h : PartsOf image.files slices parts) :
    imageSectors image = 8 * ((parts.map Part.slice).flatten).length ∧
      imageSectors image = (parts.map Part.extent).sum := by
  have hdata := h.data
  have hshaped := h.shaped
  clear h
  rw [imageSectors]
  generalize image.files = files at hdata
  induction hdata with
  | nil => exact ⟨rfl, rfl⟩
  | @cons calls p files parts hfile _ ih =>
    obtain ⟨hr, hlg⟩ := hshaped p (by simp)
    obtain ⟨h1, h2⟩ := ih (fun q hq => hshaped q (by simp [hq]))
    simp only [List.map_cons, List.sum_cons, List.flatten_cons, List.length_append,
      hfile.headerLg_eq hr hlg, extent_eq hlg]
    omega

theorem decompressFiles_image {C : Codec} (hC : C.Correct) {image : Image}
    {slices : List (List Byte)} {parts : List Part} (h : PartsOf image.files slices parts)
    {fuel : Nat} (hfuel : imageFuel C image ≤ fuel) (offset : Nat) (f : OutFile)
    (blocks : Option Int) :
    decompressFiles C.inflater fuel (imageFiles C image) (offsetText offset) f blocks =
      some (offsetText (offset + 512 * imageSectors image), f.unpackAll offset parts) := by
  obtain ⟨rel, hZ, hdef⟩ := hC.follows
  rw [(imageSectors_eq h).2]
  exact decompressFiles_parts hZ hdef h.data (fun p hp => (h.shaped p hp).1)
    (fun calls hc => (lt_imageFuel hc).trans_le hfuel) offset f blocks

/-- The sector of the source for a set bit, zeros for a clear one. -/
def denseSector (c : Content) (bitmap : List Byte) (j : Nat) : List Byte :=
  if j ∈ setBits bitmap then slice c (512 * j) 512 else zeros 512

theorem denseSector_length (c : Content) (bitmap : List Byte) (j : Nat) :
    (denseSector c bitmap j).length = 512 := by
  rw [denseSector]
  split
  · exact slice_length c _ _
  · exact List.length_replicate

theorem dense_saved (c : Content) {parts : List Part} (hparts : ∀ p ∈ parts, p.Sectors)
    {bitmap : List Byte} (hbitmap : (parts.map Part.slice).flatten = bitmap)
    (hitems : globalItems 0 parts = savedSectors c bitmap) :
    parts.flatMap Part.dense = (List.range (8 * bitmap.length)).flatMap (denseSector c bitmap) := by
  have hfst : (savedSectors c bitmap).map Prod.fst = setBits bitmap := by
    simp [savedSectors, Function.comp_def]
  have hend : visitEnd 0 (writes (savedSectors c bitmap)) ≤ 8 * bitmap.length := by
    apply visitEnd_le (Nat.zero_le _)
    intro x hx
    have hx1 := List.mem_map_of_mem (f := Prod.fst) hx
    rw [writes_fst, hfst] at hx1
    exact setBits_lt hx1
  rw [dense_parts hparts 0, hitems, hbitmap, Nat.zero_add, List.range_eq_range',
    dense_sectors (F := denseSector c bitmap) (by rw [hfst]; exact setBits_ascends bitmap) hend]
  · rfl
  · intro x hx
    obtain ⟨g, hg, rfl⟩ := List.mem_map.mp hx
    dsimp only
    rw [denseSector, if_pos hg]
  · intro j _ hj
    rw [hfst] at hj
    rw [denseSector, if_neg hj]

theorem slice_dense {F : Nat → List Byte} (hF : ∀ j, (F j).length = 512) (c : Content) {n j : Nat}
    (hj : j < n) :
    slice (patch c 0 ((List.range n).flatMap F)) (512 * j) 512 = F j := by
  have hlen : ∀ s ∈ (List.range n).map F, s.length = 512 := by
    intro s hs
    obtain ⟨i, _, rfl⟩ := List.mem_map.mp hs
    exact hF i
  have hlt : j < ((List.range n).map F).length := by rwa [List.length_map, List.length_range]
  have htotal := length_flatten_512 hlen
  have hdrop := drop_flatten_512 hlen j
  rw [List.drop_eq_getElem_cons hlt, List.flatten_cons, List.getElem_map, List.getElem_range] at hdrop
  rw [List.length_map, List.length_range] at htotal
  rw [List.flatMap_def]
  apply List.ext_getElem?
  intro k
  by_cases hk : k < 512
  · have hget : ((List.range n).map F).flatten[512 * j + k]? = (F j)[k]? := by
      rw [← List.getElem?_drop, hdrop, List.getElem?_append_left (by rw [hF]; exact hk)]
    rw [slice_getElem? hk, patch, if_pos (by omega), Nat.sub_zero, List.getD_eq_getElem?_getD, hget,
      List.getElem?_eq_getElem (by rw [hF]; exact hk), Option.getD_some]
  · rw [List.getElem?_eq_none_iff.mpr (by simp; omega),
      List.getElem?_eq_none_iff.mpr (by rw [hF]; omega)]

theorem unpackAll_empty {parts : List Part} (hparts : ∀ p ∈ parts, p.Sectors)
    (hlg : ∀ p ∈ parts, p.lg = p.slice.length) {f : OutFile} (h : f.size = 0) :
    (f.unpackAll 0 parts).content = patch f.content 0 (parts.flatMap Part.dense) ∧
      (f.unpackAll 0 parts).size = 512 * (8 * ((parts.map Part.slice).flatten).length) := by
  have hlength : (parts.flatMap Part.dense).length =
      512 * (8 * ((parts.map Part.slice).flatten).length) := by
    clear hlg
    induction parts with
    | nil => rfl
    | cons p ps ih =>
      rw [List.flatMap_cons, List.length_append, Part.dense_length (hparts p (by simp)),
        ih (fun q hq => hparts q (by simp [hq])), List.map_cons, List.flatten_cons,
        List.length_append]
      omega
  have heof : (OutFile.mk f.content f.size 0).eof = true := by
    rw [h]
    rfl
  have hwrite := unpackAll_eof hparts hlg heof
  have hstart : (f.unpackAll 0 parts).content =
      ((OutFile.mk f.content f.size 0).unpackAll 0 parts).content ∧
      (f.unpackAll 0 parts).size = ((OutFile.mk f.content f.size 0).unpackAll 0 parts).size := by
    cases parts <;> exact ⟨rfl, rfl⟩
  rw [hstart.1, hstart.2, hwrite]
  refine ⟨rfl, ?_⟩
  simp only [OutFile.write, hlength]
  omega

/-- On a file that reaches to the end of the bitmaps `decompress` stores what `restore`
stores, at any sector. From an empty file it makes one of the length of the bitmaps, with the
sectors of the set bits and zeros between them. -/
theorem decompress_agrees {C : Codec} (hC : C.Correct) {options : Option (List Byte)} (hopt : NoKeywords options)
    {info : List Byte} (hinfo : info ∈ imagerInfos) (p : PARAMS) :
    (∀ (io : Nat → Outcome) (source : Device) (sect : Nat) (mem : Memory) (target : Device) (f : OutFile)
        (blocks : Option Int) (fuel : Nat), imageFuel C (compressVolume io options info p source) ≤ fuel →
      f.content = target.content → 512 * (sect + imageSectors (compressVolume io options info p source)) ≤ f.size →
      ∃ st text f', restore C.inflater allFull fuel
          (fetch (imageFiles C (compressVolume io options info p source))) sect mem target = some st ∧
        decompressFiles C.inflater fuel (imageFiles C (compressVolume io options info p source))
          (offsetText (512 * sect)) f blocks = some (text, f') ∧
        f'.content = st.cp.dev.content ∧ f'.size = f.size) ∧
    (∀ (c : Content) (f : OutFile) (blocks : Option Int) (fuel : Nat),
      imageFuel C (compressVolume allFull options info p (openDevice c)) ≤ fuel → f.size = 0 →
      ∃ text f', decompressFiles C.inflater fuel
          (imageFiles C (compressVolume allFull options info p (openDevice c))) (offsetText 0) f blocks =
          some (text, f') ∧
        f'.size = 512 * imageSectors (compressVolume allFull options info p (openDevice c)) ∧
        (∀ i ∈ setBits p.bitmap, slice f'.content (512 * i) 512 = slice c (512 * i) 512) ∧
        (∀ j < imageSectors (compressVolume allFull options info p (openDevice c)), j ∉ setBits p.bitmap →
          slice f'.content (512 * j) 512 = zeros 512)) := by
  constructor
  · intro io source sect mem target f blocks fuel hfuel hc hsize
    obtain ⟨parts, hparts, -⟩ := compressVolume_parts io hinfo (hopt.headersRead hinfo p) source
    obtain ⟨st, hst, hdev, -⟩ := restore_image allFull hC hparts sect mem target hfuel
    obtain ⟨hcontent, -⟩ := run_restoreRequests hparts.sectors
      (show (target.exec allFull (.seekTo (512 * sect))).pos = 512 * (sect + 0) by simp [Req.target])
    have hrun := decompressFiles_image hC hparts hfuel (512 * sect) f blocks
    rw [(imageSectors_eq hparts).1] at hsize
    obtain ⟨hin, hs⟩ := unpackAll_inside hparts.sectors (fun q hq => (hparts.shaped q hq).2) (f := f)
      (show 512 * (sect + 0 + _) ≤ _ from hsize)
    rw [Nat.add_zero] at hin hs
    refine ⟨st, _, _, hst, hrun, ?_, hs⟩
    rw [hin, hdev, run_cons, hcontent, hc]
    rfl
  · intro c f blocks fuel hfuel hsize
    obtain ⟨parts, hparts, hitems⟩ := compressVolume_saved hinfo (hopt.headersRead hinfo p) c
    have hrun := decompressFiles_image hC hparts hfuel 0 f blocks
    have hbitmap : (parts.map Part.slice).flatten = p.bitmap := by
      rw [hparts.slices_eq, slicesOf_flatten]
    have hsectors := (imageSectors_eq hparts).1
    rw [hbitmap] at hsectors
    obtain ⟨hc, hs⟩ := unpackAll_empty hparts.sectors (fun q hq => (hparts.shaped q hq).2) hsize
    rw [dense_saved c hparts.sectors hbitmap hitems] at hc
    rw [hbitmap, ← hsectors] at hs
    refine ⟨_, _, hrun, hs, fun i hi => ?_, fun j hj hclear => ?_⟩
    · have hlt : i < 8 * p.bitmap.length := setBits_lt hi
      rw [hc, slice_dense (denseSector_length c p.bitmap) f.content hlt, denseSector, if_pos hi]
    · rw [hsectors] at hj
      rw [hc, slice_dense (denseSector_length c p.bitmap) f.content hj, denseSector, if_neg hclear]

/-! ### An image of one sector -/

theorem oneSectorImage_single (options : Option (List Byte)) :
    ∃ calls p, (oneSectorImage options).files = [calls] ∧ FileData calls p ∧ p.Shaped ∧
      p.slice = [0x01] ∧
      p.header = imageHeader (headerText (firststring 1 1 []) (filestring options 0) 1) [0x01] ∧
      (storedDeflate calls).length + p.output.length < 49164 := by
  obtain ⟨calls, p, hfiles, hfile, hshape, hslice, hheader, hin, hlen⟩ := oneSectorImage_file options
  exact ⟨calls, p, hfiles, hfile, hshape, hslice, hheader, by rw [← hfile.input]; omega⟩

theorem oneSector_lg {p : Part}
    (h : p.header = imageHeader (headerText (firststring 1 1 []) (filestring none 0) 1) [0x01]) :
    p.lg = 1 := by
  have hfield := (@firstText_firststring [] nil_mem_imagerInfos 1 1 (by decide) (by decide)
    none 0 1 [0x01] noKeywords_none (by decide)).2.1
  rw [Part.lg, h, hfield]
  rfl

theorem imageSectors_single {options : Option (List Byte)} {calls : List DeflateCall} {p : Part}
    (hfiles : (oneSectorImage options).files = [calls]) (hfile : FileData calls p)
    (hshape : p.Shaped) :
    imageSectors (oneSectorImage options) = 8 * p.lg.toNat := by
  rw [imageSectors, hfiles, List.map_singleton, List.sum_singleton, headerLg, hfile.input,
    output_header hshape]
  rfl

theorem decompressFiles_single {options : Option (List Byte)} {calls : List DeflateCall}
    {p : Part} (hfiles : (oneSectorImage options).files = [calls]) (hfile : FileData calls p)
    (hshape : p.Shaped) (hlen : (storedDeflate calls).length + p.output.length < 49164)
    (f : OutFile) :
    ∃ text, decompressFiles storedCodec.inflater 49164
      (imageFiles storedCodec (oneSectorImage options)) (offsetText 0)
      f none = some (text, (OutFile.mk f.content f.size 0).unpack p) := by
  obtain ⟨rel, hZ, hdef⟩ := storedCodec_correct.follows
  have hrun := decompressFiles_parts hZ hdef (List.Forall₂.cons hfile List.Forall₂.nil)
    (by simpa using hshape)
    (by
      intro c hc
      rw [List.mem_singleton.mp hc, hfile.input]
      exact hlen) 0 f none
  rw [imageFiles, hfiles]
  exact ⟨_, hrun⟩

theorem decompress_agrees_one_sector :
    (∃ st text f', restore storedCodec.inflater allFull (imageFuel storedCodec (oneSectorImage none))
        (fetch (imageFiles storedCodec (oneSectorImage none))) 63 freshMemory (openDevice (fun _ => 0)) = some st ∧
      decompressFiles storedCodec.inflater (imageFuel storedCodec (oneSectorImage none))
        (imageFiles storedCodec (oneSectorImage none)) (offsetText (512 * 63)) ⟨fun _ => 0, 512 * 71, 0⟩ none =
        some (text, f') ∧
      f'.content = st.cp.dev.content ∧ f'.size = 512 * 71) ∧
    (∃ text f', decompressFiles storedCodec.inflater (imageFuel storedCodec (oneSectorImage none))
        (imageFiles storedCodec (oneSectorImage none)) (offsetText 0) ⟨fun _ => 0, 0, 0⟩ none = some (text, f') ∧
      f'.size = 512 * 8 ∧ slice f'.content (512 * 0) 512 = slice (fun _ => 0x55) (512 * 0) 512 ∧
      slice f'.content (512 * 7) 512 = zeros 512) := by
  obtain ⟨calls, p, hfiles, hfile, hshape, -, hheader, -⟩ := oneSectorImage_single none
  have hsectors := imageSectors_single hfiles hfile hshape
  rw [oneSector_lg hheader] at hsectors
  obtain ⟨hrestored, hempty⟩ :=
    decompress_agrees storedCodec_correct noKeywords_none nil_mem_imagerInfos oneSector
  have hbits : setBits oneSector.bitmap = [0] := by decide
  constructor
  · exact hrestored allFull (openDevice (fun _ => 0x55)) 63 freshMemory (openDevice (fun _ => 0))
      ⟨fun _ => 0, 512 * 71, 0⟩ none _ (Nat.le_refl _) rfl (by
        rw [show imageSectors (compressVolume allFull none [] oneSector
        (openDevice (fun _ => 0x55))) = 8 * 1 from hsectors])
  · obtain ⟨text, f', hrun, hsize, hset, hclear⟩ :=
      hempty (fun _ => 0x55) ⟨fun _ => 0, 0, 0⟩ none _ (Nat.le_refl _) rfl
    rw [show imageSectors (compressVolume allFull none [] oneSector (openDevice (fun _ => 0x55))) =
      8 * 1 from hsectors]
      at hsize hclear
    exact ⟨text, f', hrun, hsize, hset 0 (by rw [hbits]; decide),
      hclear 7 (by decide) (by rw [hbits]; decide)⟩

/-- A file of the one sector of the volume is made longer, and a line of the `options` file
changes the length that an empty file gets: 512 bytes, whether `ALLOCTABLELG` is taken to be
the 0 of that line or the 1 of the bitmap. -/
theorem decompress_differs :
    (∃ st text f', restore storedCodec.inflater allFull (imageFuel storedCodec (oneSectorImage none))
        (fetch (imageFiles storedCodec (oneSectorImage none))) 0 freshMemory (openDevice (fun _ => 1)) = some st ∧
      decompressFiles storedCodec.inflater 49164 (imageFiles storedCodec (oneSectorImage none)) (offsetText 0)
        ⟨fun _ => 1, 512 * oneSector.nb_sect, 0⟩ none = some (text, f') ∧
      st.cp.dev.content 512 = 1 ∧ f'.size = 4096 ∧ f'.content 512 = 0) ∧
    (∃ text f', decompressFiles storedCodec.inflater 49164 (imageFiles storedCodec (oneSectorImage (some zeroLength)))
        (offsetText 0) ⟨fun _ => 0, 0, 0⟩ none = some (text, f') ∧
      f'.size = 512 ∧ imageSectors (oneSectorImage (some zeroLength)) = 0 ∧ oneSector.bitmap.length = 1) := by
  constructor
  · obtain ⟨calls, p, hfiles, hfile, hshape, hslice, hheader, hlen⟩ := oneSectorImage_single none
    obtain ⟨text, hrun⟩ := decompressFiles_single hfiles hfile hshape hlen ⟨fun _ => 1,
      512 * oneSector.nb_sect, 0⟩
    obtain ⟨st, hst, hcontent, -⟩ :=
      restore_saved storedCodec_correct noKeywords_none nil_mem_imagerInfos
      oneSector (fun _ => 0x55) 0 freshMemory (openDevice (fun _ => 1)) (Nat.le_refl _)
    have hfree : ∀ i ∈ setBits oneSector.bitmap, 1 ≠ 0 + i := by decide
    have hkept := puts_saved_of_not_mem (c := fun _ => 0x55) hfree (fun _ => 1)
    have hfirst := congrArg (fun l : List Byte => l[0]?) hkept
    simp only [slice_getElem? (show 0 < 512 by decide), Option.some.injEq] at hfirst
    obtain ⟨x, hitems⟩ := oneSector_items hfile.sectors hslice
    have hx : x.length = 512 := Part.items_length hfile.sectors (0, x) (by simp [hitems])
    have hvisit : (OutFile.mk (fun _ => 1) (512 * oneSector.nb_sect) 0).visit 0 p.items =
        ⟨patch (fun _ => 1) 0 x, 512, 512⟩ := by
      rw [hitems, OutFile.visit, OutFile.visit, OutFile.write]
      simp [hx, OutFile.skip, oneSector]
    have hunpack : (OutFile.mk (fun _ => 1) (512 * oneSector.nb_sect) 0).unpack p =
        (OutFile.mk (patch (fun _ => 1) 0 x) 512 512).write (zeros 3584) := by
      rw [OutFile.unpack, hvisit, oneSector_lg hheader, hitems, if_pos (by simp [writes, visitEnd]),
        fill_eof rfl]
      rfl
    have hzeros : (zeros 3584).length = 3584 := List.length_replicate
    rw [hunpack] at hrun
    refine ⟨st, text, _, hst, hrun, ?_, ?_, ?_⟩
    · rw [hcontent]
      exact hfirst
    · simp only [OutFile.write, hzeros]
      rfl
    · simp only [OutFile.write, patch, hzeros]
      rw [if_pos (by omega), List.getD_eq_getElem?_getD, zeros, List.getElem?_replicate,
        if_pos (by omega)]
      rfl
  · obtain ⟨calls, p, hfiles, hfile, hshape, hslice, hheader, hlen⟩ :=
      oneSectorImage_single (some zeroLength)
    obtain ⟨text, hrun⟩ := decompressFiles_single hfiles hfile hshape hlen ⟨fun _ => 0, 0, 0⟩
    obtain ⟨x, hitems⟩ := oneSector_items hfile.sectors hslice
    have hx : x.length = 512 := Part.items_length hfile.sectors (0, x) (by simp [hitems])
    have hlg := zeroLength_lg hheader
    refine ⟨text, _, hrun, ?_, ?_, rfl⟩
    · rw [OutFile.unpack, hlg, if_neg (by simp), hitems, OutFile.visit, OutFile.visit, OutFile.write]
      simp [hx, OutFile.skip]
    · rw [imageSectors_single hfiles hfile hshape, hlg]
      rfl

end PulseImaging
