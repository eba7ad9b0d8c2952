import PulseImaging.PcSlices

/-! `real_open_partition` finds the partition with the number that was asked for, among the entries of
the MBR and of the chain of extended partitions behind it. -/

namespace PulseImaging

/-! ### The partitions of a disk -/

structure SliceEntry where
  /-- The sector of the table, and the place in it. -/
  offset : Nat
  index : Nat
  type : Byte
  start : Nat
  length : Nat
  deriving DecidableEq, Repr

@[irreducible] def tableSector (c : Content) (offset : Nat) : List Byte := slice c (512 * offset) 512

def tableEntry (mbr : List Byte) (offset index : Nat) : SliceEntry where
  offset := offset
  index := index
  type := pcSliceType mbr index
  start := (offset + pcSliceStart mbr index) % 2 ^ 32
  length := pcSliceLength mbr index

theorem tableSector_eq (c : Content) (offset : Nat) :
    tableSector c offset = slice c (512 * offset) 512 := by
  unfold tableSector
  rfl

/-- The entries of at most `n` tables from sector `offset` on, and the error at the end of the chain.
There is no end if the tables are more, or not within reach. -/
def sliceChain (c : Content) : Nat → Nat → Nat → List SliceEntry × Option GrubErr
  | 0, _, _ => ([], none)
  | n + 1, offset, ext =>
    let mbr := tableSector c offset
    if 2 ^ 31 ≤ offset then ([], none)
    else if pcMbrCheckSig mbr then
      let es := (List.range PC_SLICE_MAX).map (tableEntry mbr offset)
      match extendedEntry mbr with
      | none => (es, some .noPart)
      | some i =>
        let offset := (ext + pcSliceStart mbr i) % 2 ^ 32
        let r := sliceChain c n offset (if ext = 0 then offset else ext)
        (es ++ r.1, r.2)
    else ([], some .badPartTable)

/-- The scan shows entry `e` with number `no`. -/
structure PartScan.Shows (p : PartScan) (no : Int) (e : SliceEntry) : Prop where
  partition : p.partition = no.toNat * 2 ^ 16 + 0xffff
  type : p.type = e.type
  start : p.start = e.start
  len : p.len = e.length
  offset : p.offset = e.offset
  entry : p.entry = e.index

namespace DiskIo

variable {B : Int13} {s : DiskIo} {d : Nat}

/-! ### One call of `next_partition` -/

/-- The scan stands between two entries of the chain; `rest` are the entries to come. -/
structure At (c : Content) (p : PartScan) (no : Int) (rest : List SliceEntry) (err : GrubErr) : Prop where
  number : p.begin.1 = no
  entry_low : -1 ≤ p.begin.2.entry
  entry_high : p.begin.2.entry < PC_SLICE_MAX
  chain : ∃ n es, sliceChain c (n + 1) p.begin.2.offset p.begin.2.ext_offset = (es, some err) ∧
    rest = es.drop (p.begin.2.entry + 1).toNat

/-- What a call of `next_partition` gives. -/
inductive NextSlice (c : Content) (no : Int) (err : GrubErr) :
    List SliceEntry → Bool × PartScan × DiskIo → Prop
  | error {rest p t} (h : DiskError t.errnum) : NextSlice c no err rest (false, p, t)
  | done {p t} (h : t.errnum = some err) : NextSlice c no err [] (false, p, t)
  | entry {e rest p t} (herr : t.errnum = none) (hshow : p.Shows (sliceNumber no e.type) e)
      (hnext : 0 ≤ sliceNumber no e.type → sliceNumber no e.type < 255 →
        At c p (sliceNumber no e.type) rest err) :
      NextSlice c no err (e :: rest) (true, p, t)

/-- The first table of a chain that has an end. -/
inductive FirstTable (c : Content) (n : Nat) (mbr : List Byte) (offset ext : Nat) (es : List SliceEntry)
    (err : GrubErr) : Prop
  | invalid (hsig : pcMbrCheckSig mbr = false) (hes : es = []) (herr : err = .badPartTable)
  | last (hsig : pcMbrCheckSig mbr = true) (hlast : extendedEntry mbr = none)
      (hes : es = (List.range PC_SLICE_MAX).map (tableEntry mbr offset)) (herr : err = .noPart)
  | linked (i : Nat) (es' : List SliceEntry) (hsig : pcMbrCheckSig mbr = true)
      (hlink : extendedEntry mbr = some i)
      (hes : es = (List.range PC_SLICE_MAX).map (tableEntry mbr offset) ++ es')
      (hnext : sliceChain c n ((ext + pcSliceStart mbr i) % 2 ^ 32)
        (if ext = 0 then (ext + pcSliceStart mbr i) % 2 ^ 32 else ext) = (es', some err))

theorem sliceChain_first {c : Content} {n offset ext : Nat} {es : List SliceEntry} {err : GrubErr}
    (h : sliceChain c (n + 1) offset ext = (es, some err)) :
    offset < 2 ^ 31 ∧ FirstTable c n (tableSector c offset) offset ext es err := by
  simp only [sliceChain] at h
  generalize tableSector c offset = mbr at h ⊢
  by_cases hreach : 2 ^ 31 ≤ offset
  · rw [if_pos hreach] at h
    exact nomatch congrArg Prod.snd h
  rw [if_neg hreach] at h
  refine ⟨not_le.mp hreach, ?_⟩
  cases hsig : pcMbrCheckSig mbr with
  | false =>
    rw [hsig, if_neg Bool.false_ne_true, Prod.mk.injEq, Option.some.injEq] at h
    exact .invalid hsig h.1.symm h.2.symm
  | true =>
    rw [if_pos hsig] at h
    cases hlink : extendedEntry mbr with
    | none =>
      simp only [hlink, Prod.mk.injEq, Option.some.injEq] at h
      exact .last hsig hlink h.1.symm h.2.symm
    | some i =>
      simp only [hlink, Prod.mk.injEq] at h
      exact .linked i _ hsig hlink h.1.symm (Prod.ext rfl h.2)

section

variable {c : Content} {n offset ext : Nat} {mbr : List Byte} {es : List SliceEntry} {err : GrubErr}

theorem FirstTable.entries (h : FirstTable c n mbr offset ext es err)
    (hsig : pcMbrCheckSig mbr = true) :
    ∃ es', es = (List.range PC_SLICE_MAX).map (tableEntry mbr offset) ++ es' := by
  cases h with
  | invalid hno => exact nomatch hsig.symm.trans hno
  | last _ _ hes => exact ⟨[], by rw [hes, List.append_nil]⟩
  | linked i es' _ _ hes => exact ⟨es', hes⟩

end

section

variable {p : PartScan} {no : Int} {rest : List SliceEntry} {err : GrubErr}

/-- The scan behind a table that could be read. -/
structure AtTable (c : Content) (p : PartScan) (rest : List SliceEntry) (err : GrubErr) (n : Nat)
    (es : List SliceEntry) : Prop where
  offset : p.begin.2.offset < 2 ^ 31
  chain : sliceChain c (n + 1) p.begin.2.offset p.begin.2.ext_offset = (es, some err)
  first : FirstTable c n (tableSector c p.begin.2.offset) p.begin.2.offset p.begin.2.ext_offset es err
  rest : rest = es.drop (p.begin.2.entry + 1).toNat

theorem At.table {c : Content} (hat : At c p no rest err) : ∃ n es, AtTable c p rest err n es := by
  obtain ⟨n, es, hchain, hrest⟩ := hat.chain
  obtain ⟨hoffset, hfirst⟩ := sliceChain_first hchain
  exact ⟨n, es, hoffset, hchain, hfirst, hrest⟩

/-- A table that is none ends the walk. -/
theorem AtTable.invalid {c : Content} {n : Nat} {es : List SliceEntry} {t : DiskIo}
    (h : AtTable c p rest err n es)
    (hsig : pcMbrCheckSig (tableSector c p.begin.2.offset) = false)
    (hbad : t.errnum = some .badPartTable) (q : PartScan) :
    NextSlice c no err rest (false, q, t) := by
  cases h.first with
  | invalid _ hes he =>
    rw [h.rest, hes, List.drop_nil]
    exact .done (hbad.trans (congrArg some he.symm))
  | last hyes => exact nomatch hyes.symm.trans hsig
  | linked _ _ hyes => exact nomatch hyes.symm.trans hsig

theorem Buffered.clear (h : s.Buffered) : ({ s with errnum := none } : DiskIo).Buffered where
  length := h.length
  held d hd := (h.held d hd).imp fun _ hi => ⟨⟨hi.1.translation, hi.1.cylinders, hi.1.heads,
    hi.1.sectors, hi.1.lba⟩, hi.2⟩

end

/-! ### `open_partition` -/

end DiskIo

end PulseImaging
