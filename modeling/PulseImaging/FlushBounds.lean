import PulseImaging.Acceptance

/-! When the flushes of a file stay inside the bitmap and inside the decompressed data. -/

namespace PulseImaging

/-! ### Flushes one after the other -/

section Loop

variable {io : Nat → Outcome} {buff buff' bit : List Byte}

/-- The scan for the next set bit leaves the bitmap when there are more sectors than bits. -/
theorem flushLoop_isSome_iff {n ptr : Nat} {cp : CurrentParams} :
    (flushLoop io buff bit n ptr cp).isSome ↔ n ≤ (remaining bit cp.bitindex).length := by
  induction n generalizing ptr cp with
  | zero => simp [flushLoop]
  | succ n ih =>
    rw [flushLoop, nextSet_eq_head (by omega)]
    cases hrem : remaining bit cp.bitindex with
    | nil => simp
    | cons g rest =>
      obtain ⟨-, -, htail⟩ := remaining_tail hrem
      rw [List.head?_cons, Option.bind_some, ih, htail, List.length_cons, Nat.succ_le_succ_iff]

theorem flushLoop_add (m n ptr : Nat) (cp : CurrentParams) :
    flushLoop io buff bit (m + n) ptr cp =
      (flushLoop io buff bit m ptr cp).bind (flushLoop io buff bit n (ptr + 512 * m)) := by
  induction m generalizing ptr cp with
  | zero => simp [flushLoop]
  | succ m ih =>
    rw [Nat.add_right_comm, flushLoop, flushLoop, Option.bind_assoc]
    refine congrArg _ (funext fun indx => ?_)
    have hptr : ptr + 512 * (m + 1) = ptr + 512 + 512 * m := by omega
    rw [ih, hptr]

/-- Only the sectors that are flushed matter. -/
theorem flushLoop_congr {n ptr ptr' : Nat} (cp : CurrentParams)
    (h : ∀ k < n, (buff.drop (ptr + 512 * k)).take 512 = (buff'.drop (ptr' + 512 * k)).take 512) :
    flushLoop io buff bit n ptr cp = flushLoop io buff' bit n ptr' cp := by
  induction n generalizing ptr ptr' cp with
  | zero => rfl
  | succ n ih =>
    have hfirst : (buff.drop ptr).take 512 = (buff'.drop ptr').take 512 := h 0 (Nat.succ_pos n)
    rw [flushLoop, flushLoop, hfirst]
    refine congrArg _ (funext fun indx => ih _ (fun k hk => ?_))
    have hnext := h (k + 1) (Nat.succ_lt_succ hk)
    rwa [Nat.mul_succ, Nat.add_comm (512 * k), ← Nat.add_assoc, ← Nat.add_assoc] at hnext

theorem flushLoop_append {data : List Byte} {n : Nat} (hn : data.length = 512 * n) (m : Nat)
    (cp : CurrentParams) :
    flushLoop io (data ++ buff) bit (n + m) 0 cp =
      (flushLoop io data bit n 0 cp).bind (flushLoop io buff bit m 0) := by
  have hfirst : flushLoop io (data ++ buff) bit n 0 cp = flushLoop io data bit n 0 cp :=
    flushLoop_congr cp (fun k hk => by
      have hlength : 512 ≤ (data.drop (0 + 512 * k)).length := by
        rw [List.length_drop]
        omega
      rw [List.drop_append_of_le_length (by omega), List.take_append_of_le_length hlength])
  have hrest (cp : CurrentParams) : flushLoop io (data ++ buff) bit m (0 + 512 * n) cp =
      flushLoop io buff bit m 0 cp := flushLoop_congr cp (fun k _ => by
      rw [List.drop_append, List.drop_eq_nil_of_le (by omega), List.nil_append, hn,
        show 0 + 512 * n + 512 * k - 512 * n = 0 + 512 * k by omega])
  rw [flushLoop_add, hfirst]
  exact congrArg _ (funext hrest)

/-- The first `n` sectors of `data`. -/
def sectorsOf (data : List Byte) (n : Nat) : List (List Byte) :=
  (List.range n).map (fun k => (data.drop (512 * k)).take 512)

theorem sectorsOf_length (data : List Byte) (n : Nat) :
    (sectorsOf data n).length = n := by simp [sectorsOf]

theorem sectorsOf_flatten (data : List Byte) (n : Nat) :
    (sectorsOf data n).flatten = data.take (512 * n) := by
  induction n with
  | zero => rfl
  | succ n ih =>
    rw [sectorsOf, List.range_succ, List.map_append, List.flatten_append, ← sectorsOf, ih,
      Nat.mul_succ, List.take_add]
    simp

theorem flushLoop_after {data : List Byte} {n : Nat} {cp cp' : CurrentParams}
    (hn : 512 * n ≤ data.length) (h : flushLoop io data bit n 0 cp = some cp') :
    cp' = cp.after io (((remaining bit cp.bitindex).take n).zip (sectorsOf data n)) := by
  have hle : n ≤ (remaining bit cp.bitindex).length := flushLoop_isSome_iff.mp (by rw [h]; rfl)
  have hsectors : ∀ s ∈ sectorsOf data n, s.length = 512 := by
    intro s hs
    obtain ⟨k, hk, rfl⟩ := List.mem_map.mp hs
    rw [List.mem_range] at hk
    rw [List.length_take, List.length_drop]
    omega
  have hspec := (@flushLoop_spec io data bit (data.drop (512 * n)) (sectorsOf data n)
    ((remaining bit cp.bitindex).take n)
    ((remaining bit cp.bitindex).drop n) 0 cp (List.take_append_drop _ _).symm
    (by rw [sectorsOf_length, List.length_take]; omega) hsectors
    (by rw [sectorsOf_flatten, List.drop_zero, List.take_append_drop])).1
  rw [sectorsOf_length, h] at hspec
  exact Option.some.inj hspec

end Loop

/-! ### The same turns without flushes -/

section Forget

variable {τ σ : Type} {Z : Inflater} {K : Sink τ} {ret : ZRet}

def Unpack.forget (s : Unpack σ τ) : Unpack σ Unit :=
  ⟨s.z, s.inp, s.rem, s.buffer, s.outPos, ⟨(), s.core.bitmap, s.core.bitmaplg, s.core.firstpass⟩, s.produced, s.passed⟩

theorem forget_advance (s : Unpack σ τ) (r : Inflated σ) :
    (s.advance r).forget = s.forget.advance r := rfl

theorem forget_refill (s : Unpack σ τ) : s.refill.forget = s.forget.refill := by
  by_cases h : s.inp = [] <;> simp [Unpack.refill, Unpack.forget, h]

theorem forget_full {s u : Unpack σ τ} (h : s.full K = some u) :
    s.forget.full testSink = some u.forget := by
  obtain ⟨c, hc, rfl⟩ := Option.map_eq_some_iff.mp h
  cases hf : s.core.firstpass with
  | true =>
    simp only [Core.block, hf, if_true, Option.some.injEq] at hc
    subst hc
    simp [Unpack.full, Core.block, Unpack.forget, Core.readHeader, testSink, hf]
  | false =>
    simp only [Core.block, hf, Bool.false_eq_true, if_false] at hc
    obtain ⟨t, -, rfl⟩ := Option.map_eq_some_iff.mp hc
    simp [Unpack.full, Core.block, Unpack.forget, testSink, hf]

theorem forget_turn {s s' : Unpack Z.State τ} (h : s.turn Z K = some (ret, s')) :
    s.forget.turn Z testSink = some (ret, s'.forget) := by
  obtain ⟨hret, ⟨hne, rfl⟩ | ⟨hok, hroom, rfl⟩ | ⟨hok, hfull, u, hu, rfl⟩⟩ := turn_cases h
  · rw [hret] at hne ⊢
    exact turn_of_ne hne
  · rw [hok] at hret ⊢
    rw [forget_refill]
    exact turn_of_room hret.symm hroom
  · rw [hok] at hret ⊢
    rw [forget_refill]
    exact turn_of_full (s := s.forget) hret.symm hfull (forget_full hu)

theorem forget_loop {fuel : Nat} {s s' : Unpack Z.State τ}
    (h : Unpack.loop Z K fuel s = some (ret, s')) :
    Unpack.loop Z testSink fuel s.forget = some (ret, s'.forget) := by
  induction fuel generalizing s with
  | zero => simp [Unpack.loop] at h
  | succ fuel ih =>
    rw [Unpack.loop] at h ⊢
    obtain ⟨⟨r, t⟩, hturn, hrest⟩ := Option.bind_eq_some_iff.mp h
    rw [forget_turn hturn, Option.bind_some]
    dsimp only at hrest ⊢
    split
    · rename_i hok
      rw [if_pos hok] at hrest
      exact ih hrest
    · rename_i hok
      rw [if_neg hok, Option.some.injEq, Prod.mk.injEq] at hrest
      rw [hrest.1, hrest.2]

/-- What has been flushed stays flushed, and the bitmap stays that of the header. -/
structure Grows (s t : Unpack σ τ) : Prop where
  passed : s.passed.length ≤ t.passed.length
  bitmap : s.core.firstpass = false → t.core.firstpass = false ∧ t.core.bitmap = s.core.bitmap

theorem Grows.refl (s : Unpack σ τ) : Grows s s := ⟨le_refl _, fun h => ⟨h, rfl⟩⟩

theorem Grows.trans {s t u : Unpack σ τ} (h : Grows s t) (h' : Grows t u) : Grows s u :=
  ⟨h.passed.trans h'.passed, fun hf =>
    ⟨(h'.bitmap (h.bitmap hf).1).1, (h'.bitmap (h.bitmap hf).1).2.trans (h.bitmap hf).2⟩⟩

theorem full_data {s u : Unpack σ τ} (hf : s.core.firstpass = false) (h : s.full K = some u) :
    u.passed = s.passed ++ s.buffer ∧ u.core.bitmap = s.core.bitmap ∧ u.core.firstpass = false := by
  obtain ⟨c, hc, rfl⟩ := Option.map_eq_some_iff.mp h
  simp only [Core.block, hf, Bool.false_eq_true, if_false] at hc
  obtain ⟨t, -, rfl⟩ := Option.map_eq_some_iff.mp hc
  exact ⟨by simp [hf], rfl, rfl⟩

theorem grows_full {s u : Unpack σ τ} (h : s.full K = some u) : Grows s u := by
  obtain ⟨c, hc, rfl⟩ := Option.map_eq_some_iff.mp h
  constructor
  · dsimp only
    split <;> simp
  · intro hf
    obtain ⟨-, hbitmap, hfirst⟩ := full_data hf h
    exact ⟨hfirst, hbitmap⟩

theorem grows_refill (s : Unpack σ τ) : Grows s s.refill := by
  obtain ⟨hc, -, -, -, -, hp⟩ := s.refill_other
  exact ⟨by rw [hp], fun h => by rw [hc]; exact ⟨h, rfl⟩⟩

theorem grows_turn {s s' : Unpack Z.State τ} (h : s.turn Z K = some (ret, s')) : Grows s s' := by
  have hadv : Grows s (s.advance (s.call Z)) := ⟨le_refl _, fun h => ⟨h, rfl⟩⟩
  obtain ⟨-, ⟨-, rfl⟩ | ⟨-, -, rfl⟩ | ⟨-, -, u, hu, rfl⟩⟩ := turn_cases h
  · exact hadv
  · exact hadv.trans (grows_refill _)
  · exact hadv.trans ((grows_full hu).trans (grows_refill u))

theorem grows_loop {fuel : Nat} {s s' : Unpack Z.State τ}
    (h : Unpack.loop Z K fuel s = some (ret, s')) : Grows s s' :=
  loop_preserves (fun _ _ _ hg ht => Grows.trans hg (grows_turn ht)) (Grows.refl s) h

end Forget

/-! ### The flushes of a file -/

section Flushes

variable {Z : Inflater} {io : Nat → Outcome} {cp₀ : CurrentParams} {ret : ZRet} {fuel : Nat}

/-- The flushes so far are one flush of all the data that has been passed. -/
structure FlushInv {σ : Type} (io : Nat → Outcome) (cp₀ : CurrentParams) (s : Unpack σ RestoreSink) : Prop where
  ledger : Ledger s
  header : s.core.firstpass = true → s.core.sink.cp = cp₀
  data : s.core.firstpass = false → ∃ n, s.passed.length = 512 * n ∧
    flushLoop io s.passed s.core.bitmap n 0 cp₀ = some s.core.sink.cp

theorem TOTALLG_count : (TOTALLG + 511) / 512 = 47 := by decide

theorem FlushInv.advance {σ : Type} {s : Unpack σ RestoreSink} {r : Inflated σ}
    (h : FlushInv io cp₀ s) (hr : r.out.length ≤ TOTALLG - s.outPos) :
    FlushInv io cp₀ (s.advance r) :=
  ⟨h.ledger.advance hr, h.header, h.data⟩

theorem FlushInv.refill {σ : Type} {s : Unpack σ RestoreSink} (h : FlushInv io cp₀ s) :
    FlushInv io cp₀ s.refill := by
  obtain ⟨hc, -, -, -, -, hp⟩ := s.refill_other
  exact ⟨h.ledger.refill, by rw [hc]; exact h.header, by rw [hc, hp]; exact h.data⟩

theorem FlushInv.full {σ : Type} {s u : Unpack σ RestoreSink} (h : FlushInv io cp₀ s)
    (h0 : cp₀.bitindex = 0) (hpos : s.outPos = TOTALLG) (hu : s.full (restoreSink io) = some u) :
    FlushInv io cp₀ u := by
  have hledger := h.ledger.full hpos hu
  obtain ⟨c, hc, rfl⟩ := Option.map_eq_some_iff.mp hu
  cases hf : s.core.firstpass with
  | true =>
    have hcp : { s.core.sink.cp with bitindex := 0 } = cp₀ := by
      rw [h.header hf, ← h0]
    simp only [Core.block, hf, if_true, Option.some.injEq] at hc
    subst hc
    rw [hf] at hledger
    exact ⟨hledger, fun hno => by simp [Core.readHeader] at hno,
      fun _ => ⟨0, by simp [(h.ledger.header hf).1], congrArg some hcp.symm⟩⟩
  | false =>
    obtain ⟨n, hn, hflush⟩ := h.data hf
    simp only [Core.block, hf, Bool.false_eq_true, if_false] at hc
    obtain ⟨t, ht, rfl⟩ := Option.map_eq_some_iff.mp hc
    obtain ⟨cp, hcp, rfl⟩ := Option.map_eq_some_iff.mp ht
    rw [hf] at hledger
    refine ⟨hledger, fun hno => by simp at hno, fun _ => ⟨n + 47, ?_, ?_⟩⟩
    · have hlength := h.ledger.buffer_length
      have := TOTALLG_sectors
      simp only [Bool.false_eq_true, if_false, List.length_append]
      omega
    · rw [flushToDisk, TOTALLG_count] at hcp
      simp only [Bool.false_eq_true, if_false]
      rw [flushLoop_append hn, hflush, Option.bind_some, hcp]

theorem FlushInv.flush {σ : Type} {s : Unpack σ RestoreSink} (h : FlushInv io cp₀ s)
    (h0 : cp₀.bitindex = 0) (hf : s.core.firstpass = false) {m : Nat} :
    (flushLoop io s.buffer s.core.bitmap m 0 s.core.sink.cp).isSome ↔
      s.passed.length / 512 + m ≤ (setBits s.core.bitmap).length := by
  obtain ⟨n, hn, hflush⟩ := h.data hf
  have happend := @flushLoop_append io s.buffer s.core.bitmap s.passed n hn m cp₀
  rw [hflush, Option.bind_some] at happend
  rw [← happend, flushLoop_isSome_iff, h0, remaining_zero, hn,
    Nat.mul_div_cancel_left n (by norm_num)]

theorem FlushInv.full_exists {σ : Type} {s : Unpack σ RestoreSink} (h : FlushInv io cp₀ s)
    (h0 : cp₀.bitindex = 0)
    (hbits : s.core.firstpass = false → (s.passed.length + TOTALLG) / 512 ≤
      (setBits s.core.bitmap).length) :
    ∃ u, s.full (restoreSink io) = some u := by
  cases hf : s.core.firstpass with
  | true => simp [Unpack.full, Core.block, hf]
  | false =>
    have hroom := hbits hf
    rw [TOTALLG_sectors, Nat.add_mul_div_left _ _ (by norm_num)] at hroom
    obtain ⟨cp, hcp⟩ := Option.isSome_iff_exists.mp ((h.flush h0 hf (m := 47)).mpr hroom)
    simp [Unpack.full, Core.block, hf, restoreSink, flushToDisk, TOTALLG_count, hcp]

theorem FlushInv.turn (hZ : Z.Documented) (h0 : cp₀.bitindex = 0)
    {s s' : Unpack Z.State RestoreSink} (h : FlushInv io cp₀ s)
    (ht : s.turn Z (restoreSink io) = some (ret, s')) : FlushInv io cp₀ s' := by
  have hadv : FlushInv io cp₀ (s.advance (s.call Z)) := h.advance (hZ.out_le _ _ _ _)
  obtain ⟨-, ⟨-, rfl⟩ | ⟨-, -, rfl⟩ | ⟨-, hfull, u, hu, rfl⟩⟩ := turn_cases ht
  · exact hadv
  · exact hadv.refill
  · exact (hadv.full h0 hfull hu).refill

/-- With bits for all the data that is passed in the end, no flush on the way fails. -/
theorem flushes_loop (hZ : Z.Documented) (h0 : cp₀.bitindex = 0) {s : Unpack Z.State RestoreSink}
    {t' : Unpack Z.State Unit} (h : FlushInv io cp₀ s)
    (ht : Unpack.loop Z testSink fuel s.forget = some (ret, t'))
    (hbits : t'.core.firstpass = false → t'.passed.length / 512 ≤ (setBits t'.core.bitmap).length) :
    ∃ s', Unpack.loop Z (restoreSink io) fuel s = some (ret, s') := by
  induction fuel generalizing s with
  | zero => simp [Unpack.loop] at ht
  | succ fuel ih =>
    rw [Unpack.loop] at ht ⊢
    obtain ⟨⟨r, t⟩, hturn, hrest⟩ := Option.bind_eq_some_iff.mp ht
    have hadv : FlushInv io cp₀ (s.advance (s.call Z)) := h.advance (hZ.out_le _ _ _ _)
    obtain ⟨hret, ⟨hne, -⟩ | ⟨hok, hroom, rfl⟩ | ⟨hok, hfull, v, hv, rfl⟩⟩ := turn_cases hturn
    · have hne' : (s.call Z).ret ≠ .ok := by rwa [hret] at hne
      have hr : ret = (s.call Z).ret := by
        dsimp only at hrest
        rw [if_neg hne, Option.some.injEq, Prod.mk.injEq] at hrest
        exact hrest.1.symm.trans hret
      exact ⟨_, by rw [turn_of_ne hne', Option.bind_some, if_neg hne', hr]⟩
    · rw [hok] at hret
      have hturn' : s.turn Z (restoreSink io) = some (.ok, (s.advance (s.call Z)).refill) :=
        turn_of_room hret.symm hroom
      rw [hturn']
      dsimp only at hrest
      rw [if_pos hok] at hrest
      exact ih hadv.refill (by rwa [forget_refill, forget_advance])
    · rw [hok] at hret
      dsimp only at hrest
      rw [if_pos hok] at hrest
      have hgrows : Grows v t' := (grows_refill v).trans (grows_loop hrest)
      obtain ⟨u, hu⟩ := hadv.full_exists h0 (fun hf => by
        obtain ⟨hpassed, hbitmap, hfirst⟩ := full_data (s := (s.advance (s.call Z)).forget) hf hv
        obtain ⟨hfirst', hsame⟩ := hgrows.bitmap hfirst
        have hcount := hbits hfirst'
        have hmore := hgrows.passed
        rw [hpassed, List.length_append] at hmore
        rw [hsame, hbitmap] at hcount
        have hbuffer : (s.advance (s.call Z)).forget.buffer.length = TOTALLG :=
          hadv.ledger.buffer_length
        exact (Nat.div_le_div_right (by rw [← hbuffer]; exact hmore)).trans hcount)
      have hturn' : s.turn Z (restoreSink io) = some (.ok, u.refill) :=
        turn_of_full (s := s) hret.symm hfull hu
      rw [hturn']
      have huv : u.forget = v := Option.some.inj ((forget_full hu).symm.trans hv)
      exact ih (hadv.full h0 hfull hu).refill (by rwa [forget_refill, huv])

theorem forget_ended {τ σ : Type} {K : Sink τ} {s s' : Unpack σ τ} (h : s.ended K = some s') :
    s.forget.ended testSink = some s'.forget := by
  simp only [Unpack.ended] at h
  obtain ⟨t, -, rfl⟩ := Option.map_eq_some_iff.mp h
  cases hf : s.core.firstpass <;> simp [Unpack.ended, Unpack.forget, Core.readHeader, testSink, hf]

/-- All that is written are whole sectors of data that begins with what was passed. -/
def WholeSectors (io : Nat → Outcome) (cp₀ cp : CurrentParams) (bit passed : List Byte) : Prop :=
  ∃ data, passed <+: data ∧ 512 * ((passed.length + 511) / 512) ≤ data.length ∧
    flushLoop io data bit ((passed.length + 511) / 512) 0 cp₀ = some cp

theorem FlushInv.whole {σ : Type} {s : Unpack σ RestoreSink} (h : FlushInv io cp₀ s) :
    WholeSectors io cp₀ s.core.sink.cp s.core.bitmap s.passed := by
  cases hf : s.core.firstpass with
  | true => exact ⟨[], by rw [(h.ledger.header hf).1], by simp [(h.ledger.header hf).1],
      by rw [(h.ledger.header hf).1, h.header hf]; rfl⟩
  | false =>
    obtain ⟨n, hn, hflush⟩ := h.data hf
    have hcount : (s.passed.length + 511) / 512 = n := by omega
    exact ⟨s.passed, List.prefix_refl _, by rw [hcount, hn], by rw [hcount, hflush]⟩

/-- The last flush takes the sectors that the remaining data touches. -/
theorem FlushInv.ended {σ : Type} {s s' : Unpack σ RestoreSink} (h : FlushInv io cp₀ s)
    (h0 : cp₀.bitindex = 0) (hs : s.ended (restoreSink io) = some s') :
    WholeSectors io cp₀ s'.core.sink.cp s'.core.bitmap s'.passed := by
  simp only [Unpack.ended] at hs
  obtain ⟨t, ht, rfl⟩ := Option.map_eq_some_iff.mp hs
  obtain ⟨cp, hcp, rfl⟩ := Option.map_eq_some_iff.mp ht
  cases hf : s.core.firstpass with
  | true =>
    have hcp₀ : { s.core.sink.cp with bitindex := 0 } = cp₀ := by
      rw [h.header hf, ← h0]
    simp only [hf, if_true, flushToDisk] at hcp
    refine ⟨[], by simp [(h.ledger.header hf).1], by simp [(h.ledger.header hf).1], ?_⟩
    simp only [if_true, List.take_zero, List.append_nil, (h.ledger.header hf).1]
    rw [← Option.some.inj hcp]
    exact congrArg some hcp₀.symm
  | false =>
    obtain ⟨n, hn, hflush⟩ := h.data hf
    have hlength := h.ledger.buffer_length
    have hpos := h.ledger.outPos_le
    have hwhole := TOTALLG_sectors
    simp only [hf, Bool.false_eq_true, if_false, flushToDisk] at hcp
    have hcount : ((s.passed ++ s.buffer.take s.outPos).length + 511) / 512 =
        n + (s.outPos + 511) / 512 := by
      rw [List.length_append, List.length_take]
      omega
    refine ⟨s.passed ++ s.buffer, ?_, ?_, ?_⟩
    · simp only [Bool.false_eq_true, if_false]
      exact List.prefix_append_right_inj _ |>.mpr (List.take_prefix _ _)
    · simp only [Bool.false_eq_true, if_false]
      rw [hcount, List.length_append]
      omega
    · simp only [Bool.false_eq_true, if_false]
      rw [hcount, flushLoop_append hn, hflush, Option.bind_some, hcp]

theorem FlushInv.ended_exists {σ : Type} {s : Unpack σ RestoreSink} {t : Unpack σ Unit}
    (h : FlushInv io cp₀ s) (h0 : cp₀.bitindex = 0) (ht : s.forget.ended testSink = some t)
    (hbits : (t.passed.length + 511) / 512 ≤ (setBits t.core.bitmap).length) :
    ∃ s', s.ended (restoreSink io) = some s' := by
  simp only [Unpack.ended] at ht
  obtain ⟨u, -, rfl⟩ := Option.map_eq_some_iff.mp ht
  by_cases hf : s.core.firstpass = true
  · simp [Unpack.ended, hf, restoreSink, flushToDisk, flushLoop]
  · rw [Bool.not_eq_true] at hf
    have hforget : s.forget.core.firstpass = false := hf
    rw [hforget] at hbits
    have hpos := h.ledger.outPos_le
    have hlength := h.ledger.buffer_length
    obtain ⟨n, hn, -⟩ := h.data hf
    have hcount : ((s.passed ++ s.buffer.take s.outPos).length + 511) / 512 =
        s.passed.length / 512 + (s.outPos + 511) / 512 := by
      rw [List.length_append, List.length_take]
      omega
    have hroom : s.passed.length / 512 + (s.outPos + 511) / 512 ≤ (setBits s.core.bitmap).length := by
      rw [← hcount]
      exact hbits
    obtain ⟨cp, hcp⟩ := Option.isSome_iff_exists.mp ((h.flush h0 hf).mpr hroom)
    simp [Unpack.ended, hf, restoreSink, flushToDisk, hcp]

end Flushes

/-! ### One pass over a file -/

section File

variable {Z : Inflater} {io : Nat → Outcome} {fuel : Nat} {file : List Byte} {st : RestoreState}
  {p : Pass Z.State RestoreSink} {p₀ : Pass Z.State Unit}

/-- The parameters with which a file is begun. -/
def RestoreState.begun (io : Nat → Outcome) (st : RestoreState) : CurrentParams :=
  ⟨0, 0, st.cp.dev.exec io .tell, st.cp.maxindex⟩

theorem start_flushInv (io : Nat → Outcome) {st : RestoreState} (Z : Inflater) (file : List Byte)
    (hbuf : st.buffer.length = TOTALLG) :
    FlushInv io (st.begun io)
      (Unpack.start Z file st.buffer st.bitmap (⟨st.begun io, st.fmax⟩ : RestoreSink)) :=
  ⟨start_ledger hbuf, fun _ => rfl, fun hf => by simp [Unpack.start] at hf⟩

/-- The pass of `restore` is that of a program that writes nothing, and it flushes whole sectors. -/
theorem restorePass_whole (hZ : Z.Documented) (hbuf : st.buffer.length = TOTALLG)
    (h : restorePass Z io fuel file st = some p)
    (h₀ : testPass Z fuel file ⟨st.buffer, st.bitmap⟩ = some p₀) :
    p.state.forget = p₀.state ∧ p.exit = p₀.exit ∧
      WholeSectors io (st.begun io) p.state.core.sink.cp p.state.core.bitmap p.state.passed ∧
      (p.exit = .streamEnd → p.state.passed = p.state.produced.drop TOTALLG) ∧
      (p.exit ≠ .streamEnd → 512 ∣ p.state.passed.length ∧
        p.state.passed <+: p.state.produced.drop TOTALLG) := by
  obtain ⟨⟨ret, s⟩, hloop, hrest⟩ := Option.bind_eq_some_iff.mp h
  obtain ⟨⟨ret₀, t⟩, hloop₀, hrest₀⟩ := Option.bind_eq_some_iff.mp h₀
  have hsame := (forget_loop hloop).symm.trans hloop₀
  obtain ⟨rfl, rfl⟩ := Prod.mk.inj (Option.some.inj hsame)
  have hinv : FlushInv io (st.begun io) s :=
    loop_preserves (fun _ _ _ => FlushInv.turn hZ rfl) (start_flushInv io Z file hbuf) hloop
  dsimp only at hrest hrest₀
  obtain ⟨u, hu, rfl⟩ := Option.map_eq_some_iff.mp hrest
  obtain ⟨v, hv, rfl⟩ := Option.map_eq_some_iff.mp hrest₀
  by_cases he : ret = .streamEnd
  · rw [if_pos he] at hu hv
    have huv : u.forget = v := Option.some.inj ((forget_ended hu).symm.trans hv)
    exact ⟨huv, rfl, hinv.ended rfl hu, fun _ => (hinv.ledger.ended hu).1, fun hne => absurd he hne⟩
  · rw [if_neg he, Option.some.injEq] at hu hv
    subst hu hv
    refine ⟨rfl, rfl, hinv.whole, fun hend => absurd hend he, fun _ => ?_⟩
    cases hf : s.core.firstpass with
    | true => simp [(hinv.ledger.header hf).1]
    | false =>
      obtain ⟨n, hn, -⟩ := hinv.data hf
      exact ⟨⟨n, hn⟩, by rw [(hinv.ledger.data hf).2]; exact List.prefix_append _ _⟩

theorem restorePass_exists (io : Nat → Outcome) (hZ : Z.Documented)
    (hbuf : st.buffer.length = TOTALLG)
    (h₀ : testPass Z fuel file ⟨st.buffer, st.bitmap⟩ = some p₀)
    (hbits : (p₀.state.passed.length + 511) / 512 ≤ (setBits p₀.state.core.bitmap).length) :
    ∃ p, restorePass Z io fuel file st = some p := by
  obtain ⟨⟨ret, t⟩, hloop₀, hrest₀⟩ := Option.bind_eq_some_iff.mp h₀
  dsimp only at hrest₀
  obtain ⟨v, hv, rfl⟩ := Option.map_eq_some_iff.mp hrest₀
  have hstart := start_flushInv io Z file hbuf
  have hbefore : t.core.firstpass = false → t.passed.length / 512 ≤
      (setBits t.core.bitmap).length := by
    intro hf
    by_cases he : ret = .streamEnd
    · rw [if_pos he] at hv
      simp only [Unpack.ended, hf, Bool.false_eq_true, if_false] at hv
      obtain ⟨u, -, rfl⟩ := Option.map_eq_some_iff.mp hv
      simp only [List.length_append] at hbits
      omega
    · rw [if_neg he, Option.some.injEq] at hv
      subst hv
      simp only at hbits
      omega
  obtain ⟨s, hs⟩ := flushes_loop hZ rfl hstart hloop₀ hbefore
  have hinv : FlushInv io (st.begun io) s := loop_preserves
    (fun _ _ _ => FlushInv.turn hZ rfl) hstart hs
  have hsame : s.forget = t := (Prod.mk.inj (Option.some.inj ((forget_loop hs).symm.trans hloop₀))).2
  have hpass : ∃ u, (if ret = .streamEnd then s.ended (restoreSink io) else some s) = some u := by
    by_cases he : ret = .streamEnd
    · rw [if_pos he] at hv ⊢
      exact hinv.ended_exists rfl (hsame ▸ hv) hbits
    · exact ⟨s, if_neg he⟩
  obtain ⟨u, hu⟩ := hpass
  have hs' : Unpack.loop Z (restoreSink io) fuel (Unpack.start Z file st.buffer st.bitmap
      ⟨⟨0, 0, st.cp.dev.exec io .tell, st.cp.maxindex⟩, st.fmax⟩) = some (ret, s) := hs
  exact ⟨_, by rw [restorePass, Unpack.pass, hs', Option.bind_some, hu, Option.map_some]⟩

/-! ### The requests -/

def Req.data : Req → Option (List Byte)
  | .write data => some data
  | _ => none

theorem run_requests (io : Nat → Outcome) (d : Device) (rs : List Req) :
    (d.run io rs).log.map Call.req = d.log.map Call.req ++ rs := by
  induction rs generalizing d with
  | nil => simp
  | cons r rs ih => rw [run_cons, ih, exec_log]; simp

theorem visit_data (cur : Nat) (items : List (Nat × List Byte)) :
    (visit cur (writes items)).filterMap Req.data = items.map Prod.snd := by
  induction items generalizing cur with
  | nil => rfl
  | cons x items ih =>
    have hgap : (gap cur x.1).filterMap Req.data = [] := by
      unfold gap
      split <;> rfl
    rw [show visit cur (writes (x :: items)) = gap cur x.1 ++ .write x.2 :: visit (x.1 + 1)
      (writes items) from rfl,
      List.filterMap_append, hgap, List.nil_append, List.filterMap_cons, Req.data, ih, List.map_cons]

/-- The device shows what has been written. -/
theorem run_writes_data {d : Device} {items items' : List (Nat × List Byte)}
    (h : d.run io (visit 0 (writes items)) = d.run io (visit 0 (writes items'))) :
    items.flatMap Prod.snd = items'.flatMap Prod.snd := by
  have hlog := congrArg (fun d : Device => d.log.map Call.req) h
  simp only [run_requests, List.append_cancel_left_eq] at hlog
  have hdata := congrArg (List.filterMap Req.data) hlog
  rw [visit_data, visit_data] at hdata
  rw [List.flatMap_def, List.flatMap_def, hdata]

theorem whole_items {cp₀ cp : CurrentParams} {bit passed : List Byte}
    (h : WholeSectors io cp₀ cp bit passed) (h0 : cp₀.bitindex = 0) :
    (passed.length + 511) / 512 ≤ (setBits bit).length ∧
      ∃ items, cp.dev = cp₀.dev.run io (visit 0 (writes items)) ∧
        cp.maxindex = highest cp₀.maxindex items ∧
      (items.flatMap Prod.snd).length = 512 * ((passed.length + 511) / 512) ∧
      (512 ∣ passed.length → items.flatMap Prod.snd = passed) ∧
      items.map Prod.fst = (setBits bit).take ((passed.length + 511) / 512) := by
  obtain ⟨data, hprefix, hlength, hflush⟩ := h
  have hle : (passed.length + 511) / 512 ≤ (setBits bit).length := by
    have := flushLoop_isSome_iff.mp (by rw [hflush]; rfl)
    rwa [h0, remaining_zero] at this
  have hafter := flushLoop_after hlength hflush
  rw [h0, remaining_zero] at hafter
  obtain ⟨n, hn⟩ : ∃ n, n = (passed.length + 511) / 512 := ⟨_, rfl⟩
  rw [← hn] at hle hlength hafter ⊢
  have hsnd : (((setBits bit).take n).zip (sectorsOf data n)).flatMap Prod.snd =
      data.take (512 * n) := by
    rw [List.flatMap_def, List.map_snd_zip, sectorsOf_flatten]
    rw [sectorsOf_length, List.length_take]
    omega
  refine ⟨hle, _, by rw [hafter, CurrentParams.after, h0], by rw [hafter, CurrentParams.after],
    by rw [hsnd, List.length_take]; omega, fun hdvd => ?_, ?_⟩
  · obtain ⟨k, hk⟩ := hdvd
    rw [hsnd, show 512 * n = passed.length by omega]
    exact (List.prefix_iff_eq_take.mp hprefix).symm
  · rw [List.map_fst_zip]
    rw [sectorsOf_length, List.length_take]
    omega

end File

/-! ### Streams of a header and any data -/

section Stream

variable {σ : Type} {Z : Inflater} {rel : Z.State → List Byte → List Byte → Prop} {b : Buffers}

theorem absorb_test (c : Core Unit) (o : List Byte) (k : Nat) :
    ∃ c', absorb testSink c o k = some c' ∧ (c.firstpass = true → 0 < k → c'.firstpass = false ∧
      c'.bitmap = ((o.take TOTALLG).drop HEADERLG).take ALLOCLG) := by
  induction k with
  | zero => exact ⟨c, rfl, fun _ h => absurd h (lt_irrefl 0)⟩
  | succ k ih =>
    obtain ⟨c', hc', hspec⟩ := ih
    cases hf : c'.firstpass with
    | true =>
      refine ⟨c'.readHeader testSink ((o.drop (k * TOTALLG)).take TOTALLG), ?_, fun hfirst _ => ?_⟩
      · rw [absorb, hc', Option.bind_some, Core.block, if_pos hf]
      · have hk : k = 0 := by
          by_contra hne
          exact absurd (hspec hfirst (Nat.pos_of_ne_zero hne)).1 (by simp [hf])
        subst hk
        rw [Nat.zero_mul, List.drop_zero]
        exact ⟨rfl, rfl⟩
    | false =>
      refine ⟨{ c' with sink := () }, ?_, fun hfirst _ => ?_⟩
      · rw [absorb, hc', Option.bind_some, Core.block, if_neg (by simp [hf])]
        rfl
      · have hpos : 0 < k := by
          by_contra hzero
          obtain rfl : k = 0 := by omega
          rw [absorb, Option.some.injEq] at hc'
          rw [hc', hf] at hfirst
          cases hfirst
        exact hspec hfirst hpos

/-- A file of the encoder is read to its end, the data behind the header is passed on. -/
theorem testPass_stream (hZ : Z.Decodes rel) (hdoc : Z.Documented) (hbuf : b.buffer.length = TOTALLG)
    {file o : List Byte} (hrel : rel Z.init file o) (hlong : TOTALLG < o.length) :
    ∃ p₀, testPass Z (file.length + o.length + 1) file b = some p₀ ∧ p₀.state.produced = o ∧
      p₀.state.passed = o.drop TOTALLG ∧
      p₀.state.core.bitmap = ((o.take TOTALLG).drop HEADERLG).take ALLOCLG := by
  have hne : file ≠ [] := by
    rintro rfl
    rw [hZ.trailer hrel] at hlong
    exact absurd hlong (Nat.not_lt_zero _)
  have hsplit : file.take INSIZE ++ file.drop INSIZE ++ [] = file := by
    rw [List.append_nil, List.take_append_drop]
  have hfollow : Follow rel testSink ⟨(), b.bitmap, 0, true⟩ o [] 0
      (Unpack.start Z file b.buffer b.bitmap ()) := by
    refine ⟨⟨rfl, by simp [Unpack.start], hbuf, Nat.zero_le _, by simp [Unpack.start],
      by simp [Unpack.start], ?_⟩, TOTALLG_pos, fun hi => ?_, ?_⟩
    · simpa [Unpack.start, hsplit] using hrel
    · rcases List.take_eq_nil_iff.mp hi with h | h
      · simp [INSIZE] at h
      · exact absurd h hne
    · simpa [Unpack.start, hsplit] using hne
  obtain ⟨ret, s, k, hloop, htracks, -, -, hend, -⟩ := hfollow.loop_ends hZ
    (fun k _ => by obtain ⟨c, hc, -⟩ := absorb_test ⟨(), b.bitmap, 0, true⟩ o k; rw [hc]; rfl)
    (show _ < file.length + o.length + 1 by simp [Unpack.start])
  obtain ⟨rfl, hpos⟩ := hend rfl
  have hk : 0 < k := by
    have := htracks.outPos_le
    by_contra hzero
    obtain rfl : k = 0 := by omega
    omega
  obtain ⟨c, hc, hspec⟩ := absorb_test ⟨(), b.bitmap, 0, true⟩ o k
  have hcore : s.core = c := Option.some.inj (htracks.absorbed.symm.trans hc)
  obtain ⟨hfirst, hbitmap⟩ := hspec rfl hk
  have hledger : Ledger s := loop_preserves (fun _ _ _ => Ledger.turn hdoc) (start_ledger hbuf) hloop
  have hproduced : s.produced = o := by rw [htracks.produced, hpos, List.take_length]
  obtain ⟨u, hu⟩ : ∃ u, s.ended testSink = some u := by
    simp only [Unpack.ended, testSink]
    exact ⟨_, rfl⟩
  have hu' := hu
  simp only [Unpack.ended, hcore, hfirst, Bool.false_eq_true, if_false, testSink, Option.map_some,
    Option.some.injEq] at hu'
  refine ⟨_, by rw [testPass, Unpack.pass, hloop, Option.bind_some, if_pos rfl, hu,
    Option.map_some], ?_, ?_, ?_⟩
  · rw [← hu']
    exact hproduced
  · rw [(hledger.ended hu).1, ← hu']
    exact congrArg (List.drop TOTALLG) hproduced
  · rw [← hu']
    exact hbitmap

end Stream

/-! ### Inside the bitmap and the data -/

/-- The set bits before the last bit of the bitmap, behind which the bit index leaves it. -/
def bitsBeforeLast (bitmap : List Byte) : List Nat := (setBits bitmap).filter (fun i => i + 1 < 8 * ALLOCLG)

/-- As many numbers from the front of an ascending list are below `m` as there are such numbers. -/
theorem take_below_iff {l : List Nat} {a m n : Nat} (h : Ascends a l) :
    (n ≤ l.length ∧ ∀ i ∈ l.take n, i + 1 < m) ↔ n ≤ (l.filter (fun i => i + 1 < m)).length := by
  induction l generalizing a n with
  | nil => simp
  | cons g l ih =>
    cases n with
    | zero => simp
    | succ n =>
      by_cases hg : g + 1 < m
      · rw [List.filter_cons_of_pos (by simpa using hg), List.length_cons, List.length_cons,
          Nat.succ_le_succ_iff, Nat.succ_le_succ_iff, List.take_succ_cons, List.forall_mem_cons,
          and_iff_right hg, ih h.2]
      · have hrest : l.filter (fun i => i + 1 < m) = [] := List.filter_eq_nil_iff.mpr (fun i hi => by
          have := h.2.mem_le hi
          simp only [decide_eq_true_eq]
          omega)
        rw [List.filter_cons_of_neg (by simpa using hg), hrest]
        exact iff_of_false (fun hall => hg (hall.2 g (by simp))) (Nat.not_succ_le_zero n)

/-- The pass of `restore` over a file keeps the bit index below the last bit, writes nothing but decompressed data
and serves marked sectors only, exactly when the data it passes fills whole sectors and there is a set bit before
the last one for each. -/
theorem flushes_inside_iff {Z : Inflater} (hZ : Z.Documented) (io : Nat → Outcome) {fuel : Nat} {file : List Byte}
    {st : RestoreState} (hbuf : st.buffer.length = TOTALLG) (hmax : st.cp.maxindex < 8 * ALLOCLG)
    {p₀ : Pass Z.State Unit} (h₀ : testPass Z fuel file ⟨st.buffer, st.bitmap⟩ = some p₀) :
    (∃ p items, restorePass Z io fuel file st = some p ∧ p.state.core.sink.cp.maxindex < 8 * ALLOCLG ∧
        p.state.core.sink.cp.dev = (st.begun io).dev.run io (visit 0 (writes items)) ∧
        items.flatMap Prod.snd <+: p₀.state.produced.drop TOTALLG ∧
        ∀ x ∈ items, x.1 ∈ setBits p₀.state.core.bitmap) ↔
      512 ∣ p₀.state.passed.length ∧ p₀.state.passed.length / 512 ≤ (bitsBeforeLast p₀.state.core.bitmap).length := by
  have hbelow (n : Nat) := @take_below_iff _ 0 (8 * ALLOCLG) n (setBits_ascends p₀.state.core.bitmap)
  rw [bitsBeforeLast, ← hbelow]
  constructor
  · rintro ⟨p, items, hp, hindex, hdev, hprefix, -⟩
    obtain ⟨hsame, -, hwhole, hend, hnot⟩ := restorePass_whole hZ hbuf hp h₀
    obtain ⟨hcount, items', hdev', hhighest, hlength, -, hfst⟩ := whole_items hwhole rfl
    have hpassed : p.state.passed = p₀.state.passed := congrArg Unpack.passed hsame
    have hproduced : p.state.produced = p₀.state.produced := congrArg Unpack.produced hsame
    have hbitmap : p.state.core.bitmap = p₀.state.core.bitmap :=
      congrArg (fun s => s.core.bitmap) hsame
    rw [run_writes_data (hdev.symm.trans hdev')] at hprefix
    have hle := hprefix.length_le
    rw [hlength, ← hproduced] at hle
    rw [← hpassed, ← hbitmap]
    have hdvd : 512 ∣ p.state.passed.length := by
      by_cases he : p.exit = .streamEnd
      · rw [← hend he] at hle
        exact ⟨(p.state.passed.length + 511) / 512, by omega⟩
      · exact (hnot he).1
    have hn : (p.state.passed.length + 511) / 512 = p.state.passed.length / 512 := by omega
    rw [hhighest, highest_lt_iff] at hindex
    rw [hn] at hcount hfst
    refine ⟨hdvd, hcount, fun i hi => ?_⟩
    rw [← hfst] at hi
    obtain ⟨x, hx, rfl⟩ := List.mem_map.mp hi
    exact hindex.2 x hx
  · rintro ⟨hdvd, hcount, hlast⟩
    obtain ⟨p, hp⟩ := restorePass_exists io hZ hbuf h₀ (by omega)
    obtain ⟨hsame, -, hwhole, hend, hnot⟩ := restorePass_whole hZ hbuf hp h₀
    obtain ⟨-, items, hdev, hhighest, -, hdata, hfst⟩ := whole_items hwhole rfl
    have hpassed : p.state.passed = p₀.state.passed := congrArg Unpack.passed hsame
    have hproduced : p.state.produced = p₀.state.produced := congrArg Unpack.produced hsame
    have hbitmap : p.state.core.bitmap = p₀.state.core.bitmap :=
      congrArg (fun s => s.core.bitmap) hsame
    have hn : (p₀.state.passed.length + 511) / 512 = p₀.state.passed.length / 512 := by omega
    rw [hpassed, hbitmap, hn] at hfst
    have htaken {x : Nat × List Byte} (hx : x ∈ items) :
        x.1 ∈ (setBits p₀.state.core.bitmap).take (p₀.state.passed.length / 512) :=
      hfst ▸ List.mem_map_of_mem hx
    refine ⟨p, items, hp, ?_, hdev, ?_, fun x hx => List.mem_of_mem_take (htaken hx)⟩
    · rw [hhighest, highest_lt_iff]
      exact ⟨hmax, fun x hx => hlast _ (htaken hx)⟩
    · rw [hdata (by rwa [hpassed]), ← hproduced]
      by_cases he : p.exit = .streamEnd
      · rw [hend he]
      · exact (hnot he).2

/-- A header with the given bytes, then data, as the encoder gives it. -/
def headedCalls (bit : Byte) (data : List Byte) : List DeflateCall :=
  [⟨List.replicate HEADERLG 0 ++ List.replicate ALLOCLG bit ++ data, true⟩]

theorem headed_pass (bit : Byte) (data : List Byte) (hdata : data ≠ []) :
    ∃ fuel p₀, testPass storedCodec.inflater fuel (storedCodec.deflate (headedCalls bit data))
        ⟨firstState.buffer, firstState.bitmap⟩ = some p₀ ∧
      p₀.state.passed = data ∧ p₀.state.core.bitmap = List.replicate ALLOCLG bit := by
  obtain ⟨rel, hZ, hfollows⟩ := storedCodec_correct.follows
  have hinput : streamInput (headedCalls bit data) =
      (List.replicate HEADERLG 0 ++ List.replicate ALLOCLG bit) ++ data := by
    simp [headedCalls, streamInput]
  have hheader : (List.replicate HEADERLG 0 ++ List.replicate ALLOCLG bit : List Byte).length =
      TOTALLG := by
    rw [List.length_append, List.length_replicate, List.length_replicate]
    rfl
  have hrel := hfollows (headedCalls bit data) ⟨[], _, rfl, rfl, by simp⟩
  have hlong : TOTALLG < (streamInput (headedCalls bit data)).length := by
    rw [hinput, List.length_append, hheader]
    have := List.length_pos_iff.mpr hdata
    omega
  obtain ⟨p₀, hp, -, hpassed, hbitmap⟩ := testPass_stream
    (b := ⟨firstState.buffer, firstState.bitmap⟩) hZ
    storedDecoder.documented freshMemory.buffer_length hrel hlong
  refine ⟨_, p₀, hp, ?_, ?_⟩
  · rw [hpassed, hinput, List.drop_left' hheader]
  · rw [hbitmap, hinput, List.take_left' hheader, List.drop_left' List.length_replicate,
      List.take_of_length_le List.length_replicate.le]

/-- Two sectors of data under a full bitmap. -/
theorem flushes_inside_sectors : ∃ fuel p items,
    restorePass storedCodec.inflater allFull fuel
        (storedCodec.deflate (headedCalls 0xFF (List.replicate 1024 7))) firstState = some p ∧
      p.state.core.sink.cp.maxindex < 8 * ALLOCLG ∧
      p.state.core.sink.cp.dev = (firstState.begun allFull).dev.run allFull (visit 0 (writes items)) ∧
      ∀ x ∈ items, x.1 ∈ setBits (List.replicate ALLOCLG 0xFF) := by
  obtain ⟨fuel, p₀, h₀, hpassed, hbitmap⟩ := headed_pass 0xFF (List.replicate 1024 7)
    (List.ne_nil_of_length_pos (by rw [List.length_replicate]; norm_num))
  have hset {i : Nat} (hi : i < 8 * ALLOCLG) : i ∈ setBits (List.replicate ALLOCLG 0xFF) := by
    rw [mem_setBits, bits_replicate_ff, List.getElem?_replicate, if_pos hi]
  have hcount : [0, 1].length ≤ (bitsBeforeLast (List.replicate ALLOCLG 0xFF)).length := by
    refine (List.Nodup.subperm (by decide) (fun i hi => ?_)).length_le
    have hi : i = 0 ∨ i = 1 := by simpa using hi
    have hlast : i + 1 < 8 * ALLOCLG := by rcases hi with rfl | rfl <;> decide
    exact List.mem_filter.mpr ⟨hset (by omega), by simpa using hlast⟩
  obtain ⟨p, items, hp, hindex, hdev, -, hmarked⟩ :=
    (flushes_inside_iff storedDecoder.documented allFull
    freshMemory.buffer_length (by decide) h₀).mpr (by
      rw [hpassed, hbitmap, List.length_replicate]
      exact ⟨⟨2, rfl⟩, hcount⟩)
  exact ⟨fuel, p, items, hp, hindex, hdev, by rwa [hbitmap] at hmarked⟩

/-- One byte of data goes out as a whole sector. -/
theorem short_data_outside :
    ¬ ∀ (io : Nat → Outcome) (fuel : Nat) (file : List Byte) (st : RestoreState) (p₀ : Pass storedCodec.inflater.State Unit),
      st.buffer.length = TOTALLG → st.cp.maxindex < 8 * ALLOCLG →
      testPass storedCodec.inflater fuel file ⟨st.buffer, st.bitmap⟩ = some p₀ →
      ∃ p items, restorePass storedCodec.inflater io fuel file st = some p ∧
        p.state.core.sink.cp.maxindex < 8 * ALLOCLG ∧
        p.state.core.sink.cp.dev = (st.begun io).dev.run io (visit 0 (writes items)) ∧
        items.flatMap Prod.snd <+: p₀.state.produced.drop TOTALLG ∧
        ∀ x ∈ items, x.1 ∈ setBits p₀.state.core.bitmap := by
  intro hclaim
  obtain ⟨fuel, p₀, h₀, hpassed, hbitmap⟩ := headed_pass 0 [1] (by simp)
  obtain ⟨p, items, hp, -⟩ := hclaim allFull fuel _ firstState p₀ freshMemory.buffer_length
    (by decide) h₀
  obtain ⟨hsame, -, hwhole, -⟩ :=
    restorePass_whole storedDecoder.documented freshMemory.buffer_length hp h₀
  have hcount := (whole_items hwhole rfl).1
  have hpassed' : p.state.passed = [1] := (congrArg Unpack.passed hsame).trans hpassed
  have hbitmap' : p.state.core.bitmap = List.replicate ALLOCLG 0 :=
    (congrArg (fun s => s.core.bitmap) hsame).trans hbitmap
  have hzero : setBits (List.replicate ALLOCLG 0) = [] := setBits_zeroPad ALLOCLG []
  rw [hpassed', hbitmap', hzero] at hcount
  exact absurd hcount (by decide)

end PulseImaging
