import HreqH1.Model.Error

/-!
# Model — Transport

The `S: AsyncRead + AsyncWrite` a connection runs over, as a script.  `rx` lists what the coming
calls of `poll_read` answer and `tx` what the coming calls of `poll_write` and `poll_flush`
answer; a call that is offered less room than its `data` event holds leaves the rest of the event
for the next call.  After `rx` the transport is silent, or at end of stream when `eof` is set;
after `tx` it accepts everything.  Every finite behaviour of a transport is one of these scripts.

`written` and `flushed` record what the transport has accepted: the bytes, and how many of them
the last completed flush covers.
-/

namespace HreqH1

/-- An answer of `poll_read`.  `data []` is `Ok(0)`. -/
inductive RxEvent where
  | pending
  | data (bs : Bytes)
  | fail (e : IoError)
  deriving DecidableEq, Repr

/-- An answer of `poll_write`, at most `n` bytes of which are accepted, or of `poll_flush`. -/
inductive TxEvent where
  | pending
  | accept (n : Nat)
  | fail (e : IoError)
  deriving DecidableEq, Repr

/-- `Poll<io::Result<α>>`. -/
abbrev IoPoll (α : Type) : Type := Option (Except IoError α)

structure Transport where
  rx : List RxEvent
  eof : Bool
  tx : List TxEvent
  written : Bytes
  flushed : Nat
  deriving DecidableEq

/-- The bytes of an answer. -/
def RxEvent.bytes : RxEvent → Bytes
  | .data bs => bs
  | _ => []

@[simp] theorem RxEvent.bytes_data (bs : Bytes) : (RxEvent.data bs).bytes = bs := rfl
@[simp] theorem RxEvent.bytes_pending : RxEvent.pending.bytes = [] := rfl
@[simp] theorem RxEvent.bytes_fail (e : IoError) : (RxEvent.fail e).bytes = [] := rfl

namespace Transport

def pollRead (t : Transport) (n : Nat) : IoPoll Bytes × Transport :=
  match t.rx with
  | [] => (if t.eof then some (.ok []) else none, t)
  | .pending :: rx => (none, { t with rx := rx })
  | .fail e :: rx => (some (.error e), { t with rx := rx })
  | .data bs :: rx =>
      (some (.ok (bs.take n)),
        { t with rx := if bs.length ≤ n then rx else .data (bs.drop n) :: rx })

def pollWrite (t : Transport) (buf : Bytes) : IoPoll Nat × Transport :=
  match t.tx with
  | [] => (some (.ok buf.length), { t with written := t.written ++ buf })
  | .pending :: tx => (none, { t with tx := tx })
  | .fail e :: tx => (some (.error e), { t with tx := tx })
  | .accept n :: tx =>
      (some (.ok (min n buf.length)), { t with tx := tx, written := t.written ++ buf.take n })

def pollFlush (t : Transport) : IoPoll Unit × Transport :=
  match t.tx with
  | [] => (some (.ok ()), { t with flushed := t.written.length })
  | .pending :: tx => (none, { t with tx := tx })
  | .fail e :: tx => (some (.error e), { t with tx := tx })
  | .accept _ :: tx => (some (.ok ()), { t with tx := tx, flushed := t.written.length })

/-- All bytes the peer's script still holds. -/
def coming (t : Transport) : Bytes := t.rx.flatMap RxEvent.bytes

/-- A bound on how often `rx` can still answer with something new. -/
def rxWeight (t : Transport) : Nat := (t.rx.map fun e => 1 + e.bytes.length).sum

/-- The answers still to come neither fail nor end the stream in the middle of the script. -/
def Clean (rx : List RxEvent) : Prop := ∀ e ∈ rx, e = .pending ∨ ∃ b bs, e = .data (b :: bs)

variable {t t' : Transport} {n : Nat} {r : IoPoll Bytes}

/-- A read takes its bytes from the front of what is coming, and changes nothing else. -/
theorem pollRead_spec (h : t.pollRead n = (r, t')) :
    (∀ bs, r = some (.ok bs) →
      bs.length ≤ n ∧ t.coming = bs ++ t'.coming ∧
      (bs ≠ [] → t'.rxWeight + bs.length ≤ t.rxWeight) ∧
      (bs = [] → 0 < n → t.rx = [] ∧ t.eof = true ∨ ∃ rx, t.rx = .data [] :: rx)) ∧
    ((∀ bs, r ≠ some (.ok bs)) → t'.coming = t.coming) ∧
    t'.rxWeight ≤ t.rxWeight ∧ t'.eof = t.eof ∧
    t'.tx = t.tx ∧ t'.written = t.written ∧ t'.flushed = t.flushed := by
  unfold pollRead at h
  rcases hrx : t.rx with _ | ⟨_ | bs | e, rx⟩ <;> rw [hrx] at h <;> simp only at h
  · obtain ⟨rfl, rfl⟩ := Prod.mk.inj h
    cases he : t.eof <;> simp [coming, hrx]
  · obtain ⟨rfl, rfl⟩ := Prod.mk.inj h
    simp [coming, rxWeight, hrx]
  · obtain ⟨rfl, rfl⟩ := Prod.mk.inj h
    refine ⟨?_, by simp, ?_, rfl, rfl, rfl, rfl⟩
    · rintro _ ⟨⟩
      refine ⟨List.length_take_le _ _, ?_, fun hne => ?_, fun hnil hn => .inr ⟨rx, ?_⟩⟩
      · by_cases hl : bs.length ≤ n <;> simp [coming, hrx, hl, List.take_of_length_le]
        rw [← List.append_assoc, List.take_append_drop]
      · by_cases hl : bs.length ≤ n <;> simp [rxWeight, hrx, hl] <;> omega
      · simp only [List.take_eq_nil_iff] at hnil
        rcases hnil with rfl | rfl
        · omega
        · rfl
    · by_cases hl : bs.length ≤ n <;> simp [rxWeight, hrx, hl]
  · obtain ⟨rfl, rfl⟩ := Prod.mk.inj h
    simp [coming, rxWeight, hrx]

/-- A read that is `Pending` uses up a `pending` of the script, or finds it silent. -/
theorem pollRead_pending (h : t.pollRead n = (none, t')) :
    (t.rx = [] ∧ t.eof = false ∧ t' = t) ∨ t.rx = .pending :: t'.rx := by
  unfold pollRead at h
  rcases hrx : t.rx with _ | ⟨_ | bs | e, rx⟩ <;> rw [hrx] at h <;> simp only at h
  · obtain ⟨h₁, rfl⟩ := Prod.mk.inj h
    cases he : t.eof <;> simp_all
  · obtain ⟨-, rfl⟩ := Prod.mk.inj h; exact .inr rfl
  · cases (Prod.mk.inj h).1
  · cases (Prod.mk.inj h).1

theorem pollRead_rx_le (h : t.pollRead n = (r, t')) : t'.rx.length ≤ t.rx.length := by
  unfold pollRead at h
  rcases hrx : t.rx with _ | ⟨_ | bs | e, rx⟩ <;> rw [hrx] at h <;> simp only at h <;>
    obtain ⟨-, rfl⟩ := Prod.mk.inj h
  · exact Nat.le_of_eq (congrArg List.length hrx)
  · exact Nat.le_succ _
  · by_cases hl : bs.length ≤ n <;> simp [hl]
  · exact Nat.le_succ _

theorem Clean.tail {e : RxEvent} {rx : List RxEvent} (h : Clean (e :: rx)) : Clean rx :=
  fun e' he' => h e' (List.mem_cons_of_mem _ he')

theorem Clean.pollRead (hc : Clean t.rx) (h : t.pollRead n = (r, t')) : Clean t'.rx := by
  unfold Transport.pollRead at h
  rcases hrx : t.rx with _ | ⟨_ | bs | e, rx⟩ <;> rw [hrx] at h hc <;> simp only at h <;>
    obtain ⟨-, rfl⟩ := Prod.mk.inj h
  · rw [hrx]; exact hc
  · exact hc.tail
  · by_cases hl : bs.length ≤ n
    · simpa [hl] using hc.tail
    · simp only [if_neg hl]
      intro e he
      rcases List.mem_cons.mp he with rfl | he
      · refine .inr ?_
        rcases hd : bs.drop n with _ | ⟨b, bs'⟩
        · simp only [List.drop_eq_nil_iff] at hd; omega
        · exact ⟨b, bs', rfl⟩
      · exact hc.tail e he
  · exact hc.tail

/-- A clean script never fails. -/
theorem Clean.not_fail (hc : Clean t.rx) {e : IoError} : t.pollRead n ≠ (some (.error e), t') := by
  intro h
  unfold Transport.pollRead at h
  rcases hrx : t.rx with _ | ⟨_ | bs | e', rx⟩ <;> rw [hrx] at h hc <;> simp only at h
  · split at h <;> cases (Prod.mk.inj h).1
  · cases (Prod.mk.inj h).1
  · cases (Prod.mk.inj h).1
  · rcases hc _ List.mem_cons_self with h' | ⟨b, bs, h'⟩ <;> cases h'

/-- A clean script ends the stream only after its last byte. -/
theorem Clean.eof_coming (hc : Clean t.rx) (hn : 0 < n) (h : t.pollRead n = (some (.ok []), t')) :
    t.coming = [] ∧ t.rx = [] ∧ t.eof = true ∧ t' = t := by
  rcases ((pollRead_spec h).1 [] rfl).2.2.2 rfl hn with ⟨hrx, heof⟩ | ⟨rx, hrx⟩
  · refine ⟨by simp [coming, hrx], hrx, heof, ?_⟩
    unfold Transport.pollRead at h
    rw [hrx] at h
    exact (Prod.mk.inj h).2.symm
  · rcases hc (.data []) (by simp [hrx]) with h' | ⟨b, bs, h'⟩ <;> cases h'

variable {buf : Bytes} {w : IoPoll Nat} {u : IoPoll Unit}

/-- A write appends what it accepts, a prefix of what it is offered. -/
theorem pollWrite_spec (h : t.pollWrite buf = (w, t')) :
    (∀ k, w = some (.ok k) →
      k ≤ buf.length ∧ t'.written = t.written ++ buf.take k ∧
      (t'.tx.length < t.tx.length ∨ k = buf.length)) ∧
    ((∀ k, w ≠ some (.ok k)) → t'.written = t.written) ∧
    t'.tx.length ≤ t.tx.length ∧ t'.flushed = t.flushed ∧ t'.rx = t.rx ∧ t'.eof = t.eof := by
  unfold pollWrite at h
  rcases htx : t.tx with _ | ⟨_ | k | e, tx⟩ <;> rw [htx] at h <;> simp only at h <;>
    obtain ⟨rfl, rfl⟩ := Prod.mk.inj h
  · simp
  · simp
  · refine ⟨?_, by simp, by simp, rfl, rfl, rfl⟩
    rintro _ ⟨⟩
    refine ⟨Nat.min_le_right _ _, ?_, .inl (by simp)⟩
    rw [← List.take_eq_take_min]
  · simp

theorem pollFlush_spec (h : t.pollFlush = (u, t')) :
    (u = some (.ok ()) → t'.flushed = t.written.length) ∧
    (u ≠ some (.ok ()) → t'.flushed = t.flushed) ∧
    t'.tx.length ≤ t.tx.length ∧ t'.written = t.written ∧ t'.rx = t.rx ∧ t'.eof = t.eof := by
  unfold pollFlush at h
  rcases htx : t.tx with _ | ⟨_ | k | e, tx⟩ <;> rw [htx] at h <;> simp only at h <;>
    obtain ⟨rfl, rfl⟩ := Prod.mk.inj h <;> simp

/-- What a write leaves of the answers to come. -/
theorem pollWrite_tx (h : t.pollWrite buf = (w, t')) :
    t'.tx <:+ t.tx ∧ (w = none → t.tx = .pending :: t'.tx) ∧
      (∀ e, w = some (.error e) → t.tx = .fail e :: t'.tx) ∧
      (∀ k, w = some (.ok k) → t.tx = [] ∧ t'.tx = [] ∨ ∃ n, t.tx = .accept n :: t'.tx ∧
        k = min n buf.length) := by
  unfold pollWrite at h
  rcases htx : t.tx with _ | ⟨_ | k | e, tx⟩ <;> rw [htx] at h <;> simp only at h <;>
    obtain ⟨rfl, rfl⟩ := Prod.mk.inj h
  · simp [htx]
  · simp
  · simp
  · simp

/-- What a flush leaves of them. -/
theorem pollFlush_tx (h : t.pollFlush = (u, t')) :
    t'.tx <:+ t.tx ∧ (u = none → t.tx = .pending :: t'.tx) ∧
      (∀ e, u = some (.error e) → t.tx = .fail e :: t'.tx) := by
  unfold pollFlush at h
  rcases htx : t.tx with _ | ⟨_ | k | e, tx⟩ <;> rw [htx] at h <;> simp only at h <;>
    obtain ⟨rfl, rfl⟩ := Prod.mk.inj h <;> simp [htx]

end Transport

end HreqH1
