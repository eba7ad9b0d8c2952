import PulseImaging.StreamDecoder

/-! Decoders that read one byte at a time and copy some of the bytes to their
output. Such a decoder honours the calling convention of the stream decoder. -/

namespace PulseImaging

/-- In a state with a final code nothing is read; the others say whether they copy
the byte they read. The fresh states precede all copying, and a dictionary is asked
for in them only. -/
structure ByteDecoder where
  State : Type
  init : State
  final : State → Option ZRet
  copies : State → Bool
  step : State → Byte → State
  fresh : State → Bool
  final_ne_ok : ∀ s, final s ≠ some .ok
  fresh_of_dict : ∀ s, final s = some .needDict → fresh s = true
  fresh_of_step : ∀ s b, fresh (step s b) = true → fresh s = true ∧ copies s = false

structure Scanned (σ : Type) where
  consumed : Nat
  out : List Byte
  state : σ

/-- Reads until the input is used up, a final state is reached or there is no room
for a byte to copy. -/
def ByteDecoder.scan (T : ByteDecoder) (s : T.State) : List Byte → Nat → Scanned T.State
  | [], _ => ⟨0, [], s⟩
  | b :: inp, n =>
    if (T.final s).isSome then ⟨0, [], s⟩
    else if T.copies s then
      match n with
      | 0 => ⟨0, [], s⟩
      | n + 1 =>
        let r := T.scan (T.step s b) inp n
        ⟨r.consumed + 1, b :: r.out, r.state⟩
    else
      let r := T.scan (T.step s b) inp n
      ⟨r.consumed + 1, r.out, r.state⟩

def ByteDecoder.code (T : ByteDecoder) (r : Scanned T.State) (fl : Flush) : ZRet :=
  match T.final r.state with
  | some c => c
  | none => if r.consumed = 0 ∨ fl = .finish then .bufError else .ok

def ByteDecoder.inflater (T : ByteDecoder) : Inflater where
  State := T.State
  init := T.init
  inflate s inp n fl := ⟨T.code (T.scan s inp n) fl, (T.scan s inp n).consumed, (T.scan s inp n).out,
    (T.scan s inp n).state⟩

/-- The output of a stream that ends with the last byte of the input. -/
def ByteDecoder.decode (T : ByteDecoder) : T.State → List Byte → Option (List Byte)
  | s, [] => if T.final s = some .streamEnd then some [] else none
  | s, b :: z =>
    if (T.final s).isSome then none
    else (T.decode (T.step s b) z).map (fun o => if T.copies s then b :: o else o)

variable {T : ByteDecoder} {s : T.State} {z o inp : List Byte} {n : Nat}

theorem ByteDecoder.decode_skip (hf : T.final s = none) (hc : T.copies s = false) (x : Byte)
    (z : List Byte) :
    T.decode s (x :: z) = T.decode (T.step s x) z := by
  rw [decode]
  simp [hf, hc]

/-- One call follows the stream. -/
structure ByteDecoder.Follows (T : ByteDecoder) (z o inp : List Byte) (n : Nat) (r : Scanned T.State) : Prop where
  consumed_le : r.consumed ≤ inp.length
  out_le : r.out.length ≤ n
  out_consumed : r.out.length ≤ r.consumed
  rest : ∃ o', o = r.out ++ o' ∧ T.decode r.state (z.drop r.consumed) = some o'
  greedy : T.final r.state = none → r.consumed = inp.length ∨ r.out.length = n

theorem ByteDecoder.scan_final (h : (T.final s).isSome) (inp : List Byte) (n : Nat) :
    T.scan s inp n = ⟨0, [], s⟩ := by
  cases inp with
  | nil => rfl
  | cons b inp => simp [ByteDecoder.scan, h]

theorem ByteDecoder.scan_follows (h : T.decode s z = some o) (hp : inp <+: z) :
    T.Follows z o inp n (T.scan s inp n) := by
  induction inp generalizing s z o n with
  | nil => exact ⟨by simp [scan], by simp [scan], by simp [scan], ⟨o, rfl, h⟩, fun _ => Or.inl rfl⟩
  | cons b inp ih =>
    obtain ⟨z', rfl⟩ := hp
    by_cases hf : (T.final s).isSome
    · simp [decode, hf] at h
    · rw [List.cons_append, decode, if_neg hf] at h
      obtain ⟨o1, hd, ho⟩ := Option.map_eq_some_iff.mp h
      have hstay : T.Follows (b :: inp ++ z') o (b :: inp) 0 ⟨0, [], s⟩ := by
        refine ⟨by simp, by simp, by simp, ⟨o, rfl, ?_⟩, fun _ => Or.inr rfl⟩
        rw [List.drop_zero, List.cons_append, decode, if_neg hf]
        exact h
      cases hc : T.copies s with
      | false =>
        rw [hc, if_neg (by simp)] at ho
        subst ho
        have hi := ih (n := n) hd (List.prefix_append _ _)
        simp only [scan, hf, hc, Bool.false_eq_true, if_false]
        refine ⟨by simpa using hi.consumed_le, hi.out_le, Nat.le_succ_of_le hi.out_consumed, ?_,
          fun hn => ?_⟩
        · simpa using hi.rest
        · simpa using hi.greedy hn
      | true =>
        rw [hc, if_pos rfl] at ho
        cases n with
        | zero => simpa [scan, hf, hc] using hstay
        | succ n =>
          have hi := ih (n := n) hd (List.prefix_append _ _)
          simp only [scan, hf, hc, Bool.false_eq_true, if_false, if_true]
          refine ⟨by simpa using hi.consumed_le, by simpa using hi.out_le, by simpa
            using hi.out_consumed, ?_, fun hn => ?_⟩
          · obtain ⟨o2, ho2, hd2⟩ := hi.rest
            exact ⟨o2, by rw [← ho, ho2]; rfl, by simpa using hd2⟩
          · simpa using hi.greedy hn

theorem ByteDecoder.decode_final (h : T.decode s z = some o) :
    (z = [] ↔ T.final s = some .streamEnd) ∧ (T.final s = none ∨ T.final s = some .streamEnd) ∧
      (z = [] → o = []) := by
  cases z with
  | nil =>
    rw [decode] at h
    split at h
    · rename_i hf
      simp_all
    · simp at h
  | cons b z =>
    rw [decode] at h
    split at h
    · simp at h
    · rename_i hf
      simp_all

theorem ByteDecoder.scan_pos (hf : T.final s = none) (hi : inp ≠ []) (hn : 0 < n) :
    0 < (T.scan s inp n).consumed := by
  cases inp with
  | nil => exact absurd rfl hi
  | cons b inp =>
    cases n with
    | zero => omega
    | succ n =>
      simp only [scan, hf, Option.isSome_none, Bool.false_eq_true, if_false]
      split <;> simp

theorem ByteDecoder.decodes (T : ByteDecoder) :
    T.inflater.Decodes (fun s z o => T.decode s z = some o) := by
  have hcode {r : Scanned T.State} {z o : List Byte} (fl : Flush) (h : T.decode r.state z = some o) :
      (T.code r fl = .ok ∨ T.code r fl = .streamEnd ∨ T.code r fl = .bufError) ∧
        (T.code r fl = .streamEnd ↔ T.final r.state = some .streamEnd) ∧
        (T.code r fl = .ok → T.final r.state = none ∧ 0 < r.consumed ∧ fl ≠ .finish) ∧
        (T.code r fl = .bufError → T.final r.state = none ∧ (r.consumed = 0 ∨ fl = .finish)) := by
    rcases (decode_final h).2.1 with hn | he
    · simp only [code, hn]
      split <;> simp_all [Nat.pos_iff_ne_zero]
    · simp [code, he]
  constructor
  · intro s z o inp n fl h hp _
    exact (scan_follows h hp).consumed_le
  · intro s z o inp n fl h hp _
    exact (scan_follows h hp).out_le
  · intro s z o inp n fl h hp _
    obtain ⟨o', ho, _⟩ := (scan_follows (n := n) h hp).rest
    exact ⟨o', ho.symm⟩
  · intro s z o inp n fl h hp _
    obtain ⟨o', ho, hd⟩ := (scan_follows (n := n) h hp).rest
    change T.decode (T.scan s inp n).state _ = some (o.drop (T.scan s inp n).out.length)
    rw [ho, List.drop_left]
    exact hd
  · intro s z o inp n fl h hp _
    obtain ⟨o', _, hd⟩ := (scan_follows (n := n) h hp).rest
    exact (hcode fl hd).1
  · intro s z o inp n fl h hp _
    obtain ⟨o', ho, hd⟩ := (scan_follows (n := n) h hp).rest
    have hfin := decode_final hd
    change T.code _ fl = .streamEnd ↔ z.drop (T.scan s inp n).consumed = [] ∧
      o.drop (T.scan s inp n).out.length = []
    rw [(hcode fl hd).2.1, ← hfin.1, ho, List.drop_left]
    exact ⟨fun hz => ⟨hz, hfin.2.2 hz⟩, And.left⟩
  · intro s z o inp n fl h hp _ hok
    obtain ⟨o', _, hd⟩ := (scan_follows (n := n) h hp).rest
    have := ((hcode fl hd).2.2.1 hok).2.1
    exact Nat.lt_of_lt_of_le this (Nat.le_add_right _ _)
  · intro s z o inp n fl h hp _ hok
    have hs := scan_follows (n := n) h hp
    obtain ⟨o', _, hd⟩ := hs.rest
    exact hs.greedy ((hcode fl hd).2.2.1 hok).1
  · intro s z o inp n h hp hn hbuf
    have hs := scan_follows (n := n) h hp
    obtain ⟨o', _, hd⟩ := hs.rest
    obtain ⟨hnone, hzero | hfl⟩ := (hcode .sync hd).2.2.2 hbuf
    · refine ⟨?_, List.length_eq_zero_iff.mp (by
        have := hs.out_consumed
        change (T.scan s inp n).out.length = 0
        omega)⟩
      by_contra hne
      by_cases hf : (T.final s).isSome
      · rw [scan_final hf] at hnone
        simp [hnone] at hf
      · have := scan_pos (by simpa using hf) hne hn
        omega
    · simp at hfl
  · intro s z o inp n h hp _ hok
    obtain ⟨o', _, hd⟩ := (scan_follows (n := n) h hp).rest
    exact ((hcode .finish hd).2.2.1 hok).2.2 rfl
  · intro s o h
    exact (decode_final h).2.2 rfl

theorem ByteDecoder.scan_zero (h : (T.scan s inp n).consumed = 0) : T.scan s inp n = ⟨0, [], s⟩ := by
  cases inp with
  | nil => rfl
  | cons b inp =>
    simp only [scan] at h ⊢
    split
    · rfl
    · rename_i hf
      simp only [hf, Bool.false_eq_true, if_false] at h
      cases hc : T.copies s with
      | false => simp [hc] at h
      | true =>
        cases n with
        | zero => simp
        | succ n => simp [hc] at h

theorem ByteDecoder.scan_out_le (s : T.State) (inp : List Byte) (n : Nat) :
    (T.scan s inp n).out.length ≤ n := by
  induction inp generalizing s n with
  | nil => simp [scan]
  | cons b inp ih =>
    simp only [scan]
    split
    · simp
    · split
      · cases n with
        | zero => simp
        | succ n => simpa using ih (T.step s b) n
      · exact ih (T.step s b) n

theorem ByteDecoder.scan_fresh {inp : List Byte} {s : T.State} {n : Nat}
    (h : T.fresh (T.scan s inp n).state = true) : T.fresh s = true ∧ (T.scan s inp n).out = [] := by
  induction inp generalizing s n with
  | nil => exact ⟨h, rfl⟩
  | cons b inp ih =>
    simp only [scan] at h ⊢
    split
    · rename_i hf
      simpa [hf] using h
    · rename_i hf
      simp only [hf, Bool.false_eq_true, if_false] at h
      cases hc : T.copies s with
      | false =>
        simp only [hc, Bool.false_eq_true, if_false] at h ⊢
        obtain ⟨hs, ho⟩ := ih h
        exact ⟨(T.fresh_of_step s b hs).1, ho⟩
      | true =>
        cases n with
        | zero => simpa [hc] using h
        | succ n =>
          simp only [hc, if_true] at h
          have hcop := (T.fresh_of_step s b (ih h).1).2
          rw [hc] at hcop
          exact Bool.noConfusion hcop

/-- A state with a final code gives it again and again. -/
theorem ByteDecoder.inflate_final {s : T.State} {c : ZRet} (h : T.final s = some c)
    (inp : List Byte) (n : Nat) (fl : Flush) : (T.inflater.inflate s inp n fl).ret = c := by
  change T.code (T.scan s inp n) fl = c
  rw [scan_final (by simp [h])]
  simp [code, h]

/-- Codes other than `Z_OK` and `Z_BUF_ERROR` are those of final states. -/
theorem ByteDecoder.final_of_code {r : Scanned T.State} {fl : Flush} {c : ZRet}
    (h : T.code r fl = c) (hok : c ≠ .ok) (hbuf : c ≠ .bufError) : T.final r.state = some c := by
  cases hf : T.final r.state with
  | some d =>
    rw [code, hf] at h
    exact congrArg some h
  | none =>
    simp only [code, hf] at h
    split at h
    · exact absurd h.symm hbuf
    · exact absurd h.symm hok

theorem ByteDecoder.code_finish_ne_ok (r : Scanned T.State) : T.code r .finish ≠ .ok := by
  intro h
  cases hf : T.final r.state with
  | some c =>
    rw [code, hf] at h
    exact T.final_ne_ok _ (hf.trans (congrArg some h))
  | none => simp [code, hf] at h

/-- Without input and room a call that was stuck is stuck again. -/
theorem ByteDecoder.stuck_again {s : T.State} {inp : List Byte} {n : Nat}
    (h : T.code (T.scan s inp n) .sync = .bufError) :
    T.code (T.scan (T.scan s inp n).state (inp.drop (T.scan s inp n).consumed)
      (n - (T.scan s inp n).out.length)) .finish = .bufError := by
  cases hf : T.final (T.scan s inp n).state with
  | some c =>
    have hc : c = .bufError := by simpa [code, hf] using h
    rw [scan_final (by simp [hf])]
    simp [code, hf, hc]
  | none =>
    have hzero : (T.scan s inp n).consumed = 0 := by
      simp only [code, hf] at h
      split at h
      · simp_all
      · exact ZRet.noConfusion h
    have hscan := scan_zero hzero
    rw [hscan] at hf ⊢
    simp only [List.drop_zero, List.length_nil, Nat.sub_zero, hscan, code, hf]
    simp

theorem ByteDecoder.endsOnce (T : ByteDecoder) : T.inflater.EndsOnce := by
  constructor
  · intro s inp n fl
    exact scan_out_le s inp n
  · intro s inp n fl inp' n' fl' h
    exact inflate_final (final_of_code h (by simp) (by simp)) inp' n' fl'
  · intro s inp n fl inp' n' fl' h
    have hf := final_of_code h (by simp) (by simp)
    change (T.scan (T.scan s inp n).state inp' n').out = []
    rw [scan_final (by simp [hf])]

theorem ByteDecoder.documented (T : ByteDecoder) : T.inflater.Documented := by
  refine ⟨T.endsOnce, ?_, ?_, ?_, ?_, ?_⟩
  · intro s inp n
    exact code_finish_ne_ok (T.scan s inp n)
  · intro s inp n fl inp' n' fl' h
    exact inflate_final (final_of_code h (by simp) (by simp)) inp' n' fl'
  · intro s inp n fl inp' n' fl' h hne
    have hok : (T.inflater.inflate s inp n fl).ret ≠ .ok := by
      intro hok
      rw [hok] at h
      simp [ZRet.code] at h
    have hret : (T.inflater.inflate (T.inflater.inflate s inp n fl).state inp' n' fl').ret =
        (T.inflater.inflate s inp n fl).ret :=
      inflate_final (final_of_code rfl hok hne) inp' n' fl'
    rw [hret]
    exact h
  · intro s inp n h
    exact stuck_again h
  · refine ⟨fun s => T.fresh s = true, fun s inp n fl => ⟨scan_fresh, fun h => ?_⟩⟩
    exact T.fresh_of_dict _ (final_of_code h (by simp) (by simp))

end PulseImaging
