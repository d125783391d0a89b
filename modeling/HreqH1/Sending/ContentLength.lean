import HreqH1.Sending.SendData

/-!
# Sending — the announced length

A stream for a message with `content-length: n` counts what it is given, and is documented to send
`n` bytes.  Data past `n` is refused by `send_data` and not by `send_data_owned`; a body that ends
short of `n` is refused by neither.

`call_cases` says what a call does.  `Misses` is a call that takes the body past `n`, or ends it
short, and is accepted; with none of them the body has exactly `n` bytes (`exact_iff`).
-/

namespace HreqH1.SendStream
open Runs
variable [VecAlloc]

/-- What happens to a stream, with the entry point of a call. -/
abbrev MixedOp : Type := Bool × Op

def stepMixed (a : MixedOp) (s : Out) : Obs × Out := step a.1 a.2 s

/-- The stream of a message with `content-length: n` that has a body, and its channel. -/
def fresh (n : Nat) (driveExternal : Bool) : Out :=
  (counted ⟨n, 0, ContentLengthWrite.zero_lt⟩ false driveExternal, Chan.new 1)

/-- The body bytes handed to the connection. -/
def handed (s : Out) : Nat := (s.2.sent.map fun item => item.1.length).sum

def Ok (s : Out) (a : MixedOp) : Prop := (stepMixed a s).1 = .sent (.ready ())

/-- A call that would take the body past `n` bytes. -/
def Exceeds (n : Nat) (s : Out) : MixedOp → Prop
  | (_, .send _ bs _) => n < handed s + bs.length
  | _ => False

/-- A call that would end the body short of `n` bytes. -/
def EndsShort (n : Nat) (s : Out) : MixedOp → Prop
  | (_, .send _ bs fin) => fin = true ∧ handed s + bs.length < n
  | _ => False

/-- A call that ends the body. -/
def EndsBody : MixedOp → Prop
  | (_, .send _ _ fin) => fin = true
  | _ => False

/-- A call, as against what happens at the other end of the channel. -/
def IsCall : MixedOp → Prop
  | (_, .send ..) => True
  | _ => False

/-- The outgoing body matches its content-length. -/
structure Exact (n : Nat) (ops : List MixedOp) (s : Out) : Prop where
  /-- Calls that all returned `Ok`, the last of them an end, hand over `n` bytes. -/
  total : ∀ pre a post, ops = pre ++ a :: post → EndsBody a →
    Along stepMixed (fun s a => IsCall a → Ok s a) (pre ++ [a]) s →
    handed (after stepMixed (pre ++ [a]) s) = n
  /-- A call past `n` bytes is not accepted. -/
  refusesPast : Along stepMixed (fun s a => Exceeds n s a → ¬ Ok s a) ops s
  /-- An end short of `n` bytes is not accepted. -/
  refusesShort : Along stepMixed (fun s a => EndsShort n s a → ¬ Ok s a) ops s

/-- A call the stream accepts although it exceeds the body, or ends it short: the stream has not
ended and the channel takes an item; and the call is for owned data, or is no more than the limiter
lets through. -/
def Misses (n : Nat) (s : Out) : MixedOp → Prop
  | (owned, .send _ bs fin) => ∃ v w drive, s.1 = counted v false drive ∧ s.2.Open ∧
      v.count bs.length = .ok w ∧
      (owned = true ∧ n < handed s + bs.length ∨
        fin = true ∧ handed s + bs.length < n ∧ (owned = true ∨ bs = [] ∨ w.total ≤ w.limit))
  | _ => False

/-! ### One call -/

variable {s : Out} {a : MixedOp} {cx : Waker} {bs : Bytes} {fin owned : Bool}
variable {v w : ContentLengthWrite} {ended drive : Bool} {c : Chan (Bytes × Bool)}

/-- An open call that is for owned data, or empty, or within the limit. -/
theorem call_accepted (ho : c.Open) (hw : v.count bs.length = .ok w)
    (h : owned = true ∨ bs = [] ∨ w.total ≤ w.limit) :
    pollSendData cx (dataOf owned bs) fin (counted v false drive, c) =
      (.ready (), (counted w (!owned && fin) drive, c.enqueue (bs, fin))) := by
  rw [pollSendData_open rfl ho]
  cases owned with
  | true => exact (PollM.run_bind_ready (toSend_owned hw)).trans rfl
  | false =>
      rcases eq_or_ne bs [] with rfl | hb
      · obtain rfl : v = w := Except.ok.inj (v.count_zero.symm.trans hw)
        exact (PollM.run_bind_ready toSend_shared_nil).trans (by rw [Bool.or_false]; rfl)
      · have hle := (h.resolve_left Bool.false_ne_true).resolve_left hb
        exact (PollM.run_bind_ready (toSend_shared_fits hb hw hle)).trans
          (by rw [Bool.or_false]; rfl)

/-- An open call for shared data past the limit. -/
theorem call_refused (ho : c.Open) (hb : bs ≠ []) (hw : v.count bs.length = .ok w)
    (hgt : w.limit < w.total) :
    pollSendData cx (dataOf false bs) fin (counted v false drive, c) =
      (.fail (.user (lengthMessage w.total w.limit)), (counted w false drive, c)) := by
  rw [pollSendData_open rfl ho]
  exact PollM.run_bind_fail (toSend_shared_long hb hw hgt)

/-- What a call comes to: it is refused, and at most counted; or it is an empty end after the end;
or it is sent. -/
theorem call_cases (cx : Waker) (owned : Bool) (bs : Bytes) (fin : Bool)
    (v : ContentLengthWrite) (ended drive : Bool) (c : Chan (Bytes × Bool)) :
    (∃ r v' c', pollSendData cx (dataOf owned bs) fin (counted v ended drive, c) =
        (r, (counted v' ended drive, c')) ∧ r ≠ .ready () ∧ v'.limit = v.limit ∧
        v.total ≤ v'.total ∧ c'.sent = c.sent ∧ c'.ended = c.ended ∧ c'.receivers = c.receivers) ∨
    (ended = true ∧ fin = true ∧ bs = [] ∧
      pollSendData cx (dataOf owned bs) fin (counted v ended drive, c) =
        (.ready (), (counted v ended drive, c))) ∨
    (ended = false ∧ c.Open ∧ ∃ w, v.count bs.length = .ok w ∧
      (owned = true ∨ bs = [] ∨ w.total ≤ w.limit) ∧
      pollSendData cx (dataOf owned bs) fin (counted v ended drive, c) =
        (.ready (), (counted w (!owned && fin) drive, c.enqueue (bs, fin)))) := by
  cases ended with
  | true =>
      by_cases h : fin = true ∧ bs = []
      · refine .inr (.inl ⟨rfl, h.1, h.2, ?_⟩)
        rw [pollSendData_ended rfl, if_pos ⟨h.1, by rw [isEmpty_dataOf, h.2]; rfl⟩]
      · refine .inl ⟨_, v, c, pollSendData_ended rfl, ?_, rfl, Nat.le_refl _, rfl, rfl, rfl⟩
        rw [if_neg fun h' => h ⟨h'.1, List.isEmpty_iff.mp (isEmpty_dataOf owned bs ▸ h'.2)⟩]
        simp
  | false =>
      by_cases hc : c.receivers = 0
      · exact .inl ⟨_, v, c, pollSendData_closed rfl hc, by simp, rfl, Nat.le_refl _, rfl, rfl, rfl⟩
      by_cases ho : c.Open
      swap
      · exact .inl ⟨_, v, c.register cx, pollSendData_full rfl hc ho, by simp, rfl, Nat.le_refl _,
          rfl, rfl, rfl⟩
      cases hw : v.count bs.length with
      | error m =>
          have hb : bs ≠ [] := by
            rintro rfl
            cases v.count_zero.symm.trans hw
          refine .inl ⟨.panic m, v, c, ?_, by simp, rfl, Nat.le_refl _, rfl, rfl, rfl⟩
          rw [pollSendData_open rfl ho]
          cases owned
          · exact PollM.run_bind_panic (toSend_shared_overflow hb hw)
          · exact PollM.run_bind_panic (toSend_owned_overflow hw)
      | ok w =>
          by_cases h : owned = true ∨ bs = [] ∨ w.total ≤ w.limit
          · exact .inr (.inr ⟨rfl, ho, w, rfl, h, call_accepted ho hw h⟩)
          · simp only [not_or, Bool.not_eq_true, Nat.not_le] at h
            obtain ⟨rfl, hb, hgt⟩ := h
            obtain ⟨hlim, htot⟩ := ContentLengthWrite.count_ok hw
            refine .inl ⟨_, w, c, call_refused ho hb hw hgt, by simp, hlim, ?_, rfl, rfl, rfl⟩
            rw [htot]
            exact Nat.le_add_right _ _

/-- A call that misses is accepted. -/
theorem Misses.ok {n : Nat} (h : Misses n s a) :
    Ok s a ∧ (Exceeds n s a ∨ EndsShort n s a) := by
  obtain ⟨owned, cx | _ | _⟩ := a
  · obtain ⟨v, w, drive, hs, ho, hw, hd⟩ := h
    obtain ⟨_, c⟩ := s
    obtain rfl : _ = counted v false drive := hs
    have hacc := hd.elim (fun h => .inl h.1) fun h => h.2.2
    refine ⟨?_, hd.elim (fun h => .inl h.2) fun h => .inr ⟨h.1, h.2.1⟩⟩
    exact congrArg Obs.sent (congrArg Prod.fst (call_accepted ho hw hacc))
  · exact h.elim
  · exact h.elim

/-! ### The body so far -/

/-- While no call has missed: what has been handed over was counted and is within the limit, and
is all of it once the stream has ended. -/
structure OnTrack (n : Nat) (s : Out) : Prop where
  counts : ∃ v ended drive, s.1 = counted v ended drive ∧ v.limit = n ∧ handed s ≤ v.total ∧
    (ended = true → handed s = n)
  handed_le : handed s ≤ n
  dead : s.2.ended = true → s.2.receivers = 0

omit [VecAlloc] in
theorem onTrack_fresh (n : Nat) (drive : Bool) : OnTrack n (fresh n drive) where
  counts := ⟨_, false, drive, rfl, rfl, Nat.le_refl _, by simp⟩
  handed_le := Nat.zero_le _
  dead := by intros; contradiction

omit [VecAlloc] in
theorem handed_enqueue {p q : SendStream} (hc : c.ended = false) :
    handed (p, c.enqueue (bs, fin)) = handed (q, c) + bs.length := by
  simp [handed, hc]

omit [VecAlloc] in
/-- The other end of the channel does not matter. -/
theorem OnTrack.otherEnd {n : Nat} {p : SendStream} {c' : Chan (Bytes × Bool)}
    (h : OnTrack n (p, c)) (hs : c'.sent = c.sent) (hd : c'.ended = true → c'.receivers = 0) :
    OnTrack n (p, c') := by
  obtain ⟨⟨v, ended, drive, hp, hlim, hle, hend⟩, hn, -⟩ := h
  have hput : handed (p, c') = handed (p, c) := by rw [handed, hs]; rfl
  exact ⟨⟨v, ended, drive, hp, hlim, hput ▸ hle, hput ▸ hend⟩, hput ▸ hn, hd⟩

omit [VecAlloc] in
theorem isCall_of_endsBody (h : EndsBody a) : IsCall a := by
  obtain ⟨owned, _ | _ | _⟩ := a
  · trivial
  · exact h.elim
  · exact h.elim

/-- What a step keeps, and what it shows, when it does not miss. -/
theorem onTrack_step {n : Nat} (h : OnTrack n s) (hm : ¬ Misses n s a) :
    OnTrack n (stepMixed a s).2 ∧ (Exceeds n s a → ¬ Ok s a) ∧ (EndsShort n s a → ¬ Ok s a) ∧
      (EndsBody a → Ok s a → handed (stepMixed a s).2 = n) := by
  have htrack := h
  obtain ⟨⟨v, ended, drive, hs, hlim, hle, hend⟩, hn, hdead⟩ := h
  obtain ⟨_, c⟩ := s
  obtain rfl : _ = counted v ended drive := hs
  obtain ⟨owned, ⟨cx, bs, fin⟩ | ⟨cx, reg⟩ | _⟩ := a
  · have hok : ∀ r t, pollSendData cx (dataOf owned bs) fin (counted v ended drive, c) = (r, t) →
        Ok (counted v ended drive, c) (owned, .send cx bs fin) → r = .ready () := by
      intro r t hp hacc
      have := Obs.sent.inj hacc
      rwa [hp] at this
    show OnTrack n (pollSendData cx (dataOf owned bs) fin _).2 ∧ _ ∧ _ ∧
      (_ → _ → handed (pollSendData cx (dataOf owned bs) fin _).2 = n)
    rcases call_cases cx owned bs fin v ended drive c with
      ⟨r, v', c', hp, hr, hl', ht', hsent, hce, hcr⟩ | ⟨rfl, rfl, rfl, hp⟩ |
      ⟨rfl, ho, w, hw, hacc, hp⟩
    · have hput : handed (counted v' ended drive, c') = handed (counted v ended drive, c) := by
        rw [handed, hsent]; rfl
      have hno : ¬ Ok (counted v ended drive, c) (owned, .send cx bs fin) := fun hacc =>
        hr (hok _ _ hp hacc)
      rw [hp]
      exact ⟨⟨⟨v', ended, drive, rfl, hl'.trans hlim, hput ▸ Nat.le_trans hle ht', hput ▸ hend⟩,
        hput ▸ hn, hce ▸ hcr ▸ hdead⟩, fun _ => hno, fun _ => hno, fun _ hacc => absurd hacc hno⟩
    · have hput := hend rfl
      rw [hp]
      refine ⟨⟨⟨v, true, drive, rfl, hlim, hle, hend⟩, hn, hdead⟩, fun hx => ?_, fun hx => ?_,
        fun _ _ => hput⟩
      · exact absurd hx (Nat.not_lt.mpr hn)
      · exact absurd hx.2 (Nat.not_lt.mpr (Nat.le_of_eq hput.symm))
    · obtain ⟨hwl, hwt⟩ := ContentLengthWrite.count_ok hw
      have hce : c.ended = false := Bool.eq_false_iff.mpr fun h => ho.1 (hdead h)
      have hput : handed (counted w (!owned && fin) drive, c.enqueue (bs, fin)) =
          handed (counted v false drive, c) + bs.length := handed_enqueue hce
      -- The call fits: as owned data it does not miss, and else the limiter has checked it.
      have hfit : handed (counted v false drive, c) + bs.length ≤ n := by
        refine Nat.not_lt.mp fun hlt => ?_
        rcases hacc with rfl | rfl | hle'
        · exact hm ⟨v, w, drive, rfl, ho, hw, .inl ⟨rfl, hlt⟩⟩
        · exact absurd hlt (Nat.not_lt.mpr hn)
        · have hput' := Nat.add_le_add_right hle bs.length
          rw [← hwt] at hput'
          have hwn : w.total ≤ n := Nat.le_trans hle' (Nat.le_of_eq (hwl.trans hlim))
          exact Nat.not_lt.mpr (Nat.le_trans hput' hwn) hlt
      have hwhole : fin = true → handed (counted v false drive, c) + bs.length = n := fun hf =>
        Nat.le_antisymm hfit (Nat.not_lt.mp fun hlt =>
          hm ⟨v, w, drive, rfl, ho, hw, .inr ⟨hf, hlt, hacc⟩⟩)
      rw [hp]
      refine ⟨⟨⟨w, !owned && fin, drive, rfl, hwl.trans hlim, ?_, fun he => ?_⟩, ?_, ?_⟩,
        fun hx => ?_, fun hx => ?_, fun hf _ => ?_⟩
      · rw [hput, hwt]; exact Nat.add_le_add_right hle _
      · rw [hput]; exact hwhole (Bool.and_eq_true_iff.mp he).2
      · rw [hput]; exact hfit
      · intro he
        rw [Chan.ended_enqueue, hce] at he
        cases he
      · exact absurd hx (Nat.not_lt.mpr hfit)
      · exact absurd hx.2 (Nat.not_lt.mpr (Nat.le_of_eq (hwhole hx.1).symm))
      · rw [hput]; exact hwhole hf
  · obtain ⟨hsent, hce, hcr⟩ := @Chan.pollRecv_keeps _ Error c cx reg
    refine ⟨htrack.otherEnd hsent fun he => ?_, by intros; contradiction, by intros; contradiction,
      by intros; contradiction⟩
    rw [hce] at he
    exact hcr.trans (hdead he)
  · refine ⟨htrack.otherEnd ?_ fun he => ?_, by intros; contradiction, by intros; contradiction,
      by intros; contradiction⟩
    · exact Chan.dropReceiver_sent
    · exact Chan.dropReceiver_dead hdead he

/-! ### Runs -/

/-- **When the body has the announced length.**  Whatever is called on the stream of a message with
`content-length: n`, its body matches if and only if no call misses: none is a call for owned data
past `n`, and none ends the body short of `n`. -/
theorem exact_iff (n : Nat) (drive : Bool) (ops : List MixedOp) :
    Exact n ops (fresh n drive) ↔ Along stepMixed (fun s a => ¬ Misses n s a) ops (fresh n drive) := by
  refine ⟨fun h => ?_, fun h => ?_⟩
  · refine (h.refusesPast.and h.refusesShort).mono fun s a hx hm => ?_
    exact hm.ok.2.elim (fun he => hx.1 he hm.ok.1) fun he => hx.2 he hm.ok.1
  · have hinv := along_invariant (fun _ _ ht hm => (onTrack_step ht hm).1) h (onTrack_fresh n drive)
    refine ⟨fun pre a post hops hend hok => ?_, ?_, ?_⟩
    · rw [hops, along_append] at hinv
      rw [along_append] at hok
      rw [after, run_append]
      exact (onTrack_step hinv.2.1.1 hinv.2.1.2).2.2.2 hend (hok.2.1 (isCall_of_endsBody hend))
    · exact hinv.mono fun s a hs => (onTrack_step hs.1 hs.2).2.1
    · exact hinv.mono fun s a hs => (onTrack_step hs.1 hs.2).2.2.1

omit [VecAlloc] in
/-- One byte ends a body of three. -/
theorem short_body_accepted :
    letI := VecAlloc.amortized
    ¬ Exact 3 [(false, .send 0 [1] true)] (fresh 3 false) := by
  let _ := VecAlloc.amortized
  have hm : Misses 3 (fresh 3 false) (false, .send 0 [1] true) :=
    ⟨⟨3, 0, by decide⟩, ⟨3, 1, by decide⟩, false, rfl, by decide, rfl,
      .inr ⟨rfl, by decide, .inr (.inr (by decide))⟩⟩
  exact fun h => h.refusesShort.1 ⟨rfl, by decide⟩ hm.ok.1

end HreqH1.SendStream
