import HreqH1.Sending.ContentLength

/-!
# Sending — refused chunks

A call of `send_data` past the announced length returns an error and enqueues nothing.  But
`ContentLengthWrite::write` has counted the data by then, and the count stays: what is left of the
length is given away to bytes that were never sent, and later calls that would fit are refused too.

So the stream is left as it was exactly in the runs without such a call (`unharmed_iff`).
-/

namespace HreqH1.SendStream
open Runs
variable [VecAlloc]

/-- A call is refused because its data exceeds the remaining length. -/
def RefusedForLength (s : Out) (a : MixedOp) : Prop :=
  ∃ total limit, (stepMixed a s).1 = .sent (.fail (.user (lengthMessage total limit)))

/-- The data of a call fits into `n` without the bytes that have been sent; and the stream has not
ended, and its channel takes an item. -/
def FitsRest (n : Nat) (s : Out) : MixedOp → Prop
  | (_, .send _ bs _) => handed s + bs.length ≤ n ∧ s.1.ended = false ∧ s.2.Open
  | _ => False

/-- Refusals for length leave the stream as it was. -/
structure Unharmed (n : Nat) (ops : List MixedOp) (s : Out) : Prop where
  /-- A refusal enqueues nothing, and leaves the limiter and `ended`. -/
  refused : Along stepMixed (fun s a => RefusedForLength s a →
    (stepMixed a s).2.1 = s.1 ∧ (stepMixed a s).2.2.sent = s.2.sent) ops s
  /-- What fits into the rest is accepted. -/
  accepts : Along stepMixed (fun s a => FitsRest n s a → Ok s a) ops s

/-- A call of `send_data` past the length, on a stream that has not ended and whose channel takes an
item; its data can be counted. -/
def TooLong (n : Nat) (s : Out) : MixedOp → Prop
  | (owned, .send _ bs _) => owned = false ∧ bs ≠ [] ∧ s.1.ended = false ∧ s.2.Open ∧
      n < handed s + bs.length ∧ handed s + bs.length < 2 ^ 64
  | _ => False

/-- While no call has been too long: what has been counted has been sent. -/
structure Exactly (n : Nat) (s : Out) : Prop where
  counts : ∃ v ended drive, s.1 = counted v ended drive ∧ v.limit = n ∧ v.total = handed s
  dead : s.2.ended = true → s.2.receivers = 0

/-! ### One call -/

variable {n : Nat} {s : Out} {a : MixedOp} {cx : Waker} {bs : Bytes} {fin owned : Bool}
variable {v w : ContentLengthWrite} {ended drive : Bool} {c : Chan (Bytes × Bool)}

omit [VecAlloc] in
theorem exactly_fresh (n : Nat) (drive : Bool) : Exactly n (fresh n drive) where
  counts := ⟨_, false, drive, rfl, rfl, rfl⟩
  dead := by intros; contradiction

omit [VecAlloc] in
/-- The text of a refusal for length is not the one of a call after the end. -/
theorem lengthMessage_ne (total limit : Nat) :
    lengthMessage total limit ≠ "Body data is not expected" := by
  intro h
  have hl := congrArg (fun s => s.toList.take 11) h
  unfold lengthMessage at hl
  simp only [String.toList_append, List.append_assoc] at hl
  rw [List.take_append_of_le_length (by decide)] at hl
  exact absurd hl (by decide)

omit [VecAlloc] in
theorem Exactly.otherEnd {p : SendStream} {c' : Chan (Bytes × Bool)} (h : Exactly n (p, c))
    (hs : c'.sent = c.sent) (hd : c'.ended = true → c'.receivers = 0) : Exactly n (p, c') := by
  obtain ⟨⟨v, ended, drive, hp, hlim, htot⟩, -⟩ := h
  have hput : handed (p, c') = handed (p, c) := by rw [handed, hs]; rfl
  exact ⟨⟨v, ended, drive, hp, hlim, htot.trans hput.symm⟩, hd⟩

/-- An open call whose data can not be counted. -/
theorem call_overflow {m : String} (ho : c.Open) (hw : v.count bs.length = .error m) :
    pollSendData cx (dataOf owned bs) fin (counted v false drive, c) =
      (.panic m, (counted v false drive, c)) := by
  have hb : bs ≠ [] := by
    rintro rfl
    cases v.count_zero.symm.trans hw
  rw [pollSendData_open rfl ho]
  cases owned with
  | true => exact PollM.run_bind_panic (toSend_owned_overflow hw)
  | false => exact PollM.run_bind_panic (toSend_shared_overflow hb hw)

/-- **A call that is not too long** is not refused for length, and accepted where it fits. -/
theorem exactly_call (hn : n < 2 ^ 64) (h : Exactly n (counted v ended drive, c))
    (ht : ¬ TooLong n (counted v ended drive, c) (owned, .send cx bs fin)) :
    ∃ r s', pollSendData cx (dataOf owned bs) fin (counted v ended drive, c) = (r, s') ∧
      Exactly n s' ∧ (∀ total limit, r ≠ .fail (.user (lengthMessage total limit))) ∧
      (FitsRest n (counted v ended drive, c) (owned, .send cx bs fin) → r = .ready ()) := by
  have hexact := h
  obtain ⟨⟨v', ended', drive', hs, hlim, htot⟩, hdead⟩ := h
  cases hs
  cases ended with
  | true =>
      refine ⟨_, _, pollSendData_ended rfl, hexact, fun total limit hr => ?_,
        fun hf => absurd hf.2.1 (by simp)⟩
      split at hr
      · cases hr
      · exact lengthMessage_ne total limit (Error.user.inj (Outcome.fail.inj hr)).symm
  | false =>
      by_cases hc : c.receivers = 0
      · exact ⟨_, _, pollSendData_closed rfl hc, hexact, by simp [connectionClosed],
          fun hf => absurd hc hf.2.2.1⟩
      by_cases ho : c.Open
      swap
      · exact ⟨_, _, pollSendData_full rfl hc ho, hexact.otherEnd rfl hdead, by simp,
          fun hf => absurd hf.2.2 ho⟩
      cases hw : v.count bs.length with
      | error m =>
          refine ⟨_, _, call_overflow ho hw, hexact, by simp, fun hf => ?_⟩
          rw [ContentLengthWrite.count, htot, dif_pos (Nat.lt_of_le_of_lt hf.1 hn)] at hw
          cases hw
      | ok w =>
          obtain ⟨hwl, hwt⟩ := ContentLengthWrite.count_ok hw
          have hacc : owned = true ∨ bs = [] ∨ w.total ≤ w.limit := by
            by_contra hno
            simp only [not_or, Bool.not_eq_true, Nat.not_le] at hno
            obtain ⟨rfl, hb, hgt⟩ := hno
            rw [hwl, hlim, hwt, htot] at hgt
            exact ht ⟨rfl, hb, rfl, ho, hgt, htot ▸ hwt ▸ w.total_lt⟩
          have hce : c.ended = false := Bool.eq_false_iff.mpr fun h => ho.1 (hdead h)
          refine ⟨_, _, call_accepted ho hw hacc, ⟨⟨w, _, drive, rfl, hwl.trans hlim, ?_⟩, ?_⟩,
            by simp, fun _ => rfl⟩
          · rw [handed_enqueue (q := counted v false drive) hce, hwt, htot]
          · intro he
            rw [Chan.ended_enqueue, hce] at he
            cases he

/-- What a step keeps and shows when it is not too long. -/
theorem exactly_step (hn : n < 2 ^ 64) (h : Exactly n s) (ht : ¬ TooLong n s a) :
    Exactly n (stepMixed a s).2 ∧ ¬ RefusedForLength s a ∧ (FitsRest n s a → Ok s a) := by
  have hexact := h
  obtain ⟨⟨v, ended, drive, hs, -, -⟩, hdead⟩ := h
  obtain ⟨_, c⟩ := s
  obtain rfl : _ = counted v ended drive := hs
  obtain ⟨owned, ⟨cx, bs, fin⟩ | ⟨cx, reg⟩ | _⟩ := a
  · obtain ⟨r, s', hp, hs', hr, hf⟩ := exactly_call hn hexact ht
    have hstep : stepMixed (owned, .send cx bs fin) (counted v ended drive, c) = (.sent r, s') := by
      show (Obs.sent (pollSendData cx (dataOf owned bs) fin _).1,
        (pollSendData cx (dataOf owned bs) fin _).2) = _
      rw [hp]
    rw [RefusedForLength, Ok, hstep]
    refine ⟨hs', ?_, fun hfit => congrArg Obs.sent (hf hfit)⟩
    rintro ⟨total, limit, he⟩
    exact hr total limit (Obs.sent.inj he)
  · obtain ⟨hsent, hce, hcr⟩ := @Chan.pollRecv_keeps _ Error c cx reg
    refine ⟨hexact.otherEnd hsent fun he => hcr.trans (hdead (hce ▸ he)), ?_, fun hf => hf.elim⟩
    rintro ⟨total, limit, he⟩
    cases he
  · refine ⟨hexact.otherEnd Chan.dropReceiver_sent fun he => Chan.dropReceiver_dead hdead he, ?_,
      fun hf => hf.elim⟩
    rintro ⟨total, limit, he⟩
    cases he

/-- A call that is too long is refused, and counted. -/
theorem TooLong.harms (h : Exactly n s) (ht : TooLong n s a) :
    RefusedForLength s a ∧ (stepMixed a s).2.1 ≠ s.1 := by
  obtain ⟨⟨v, ended, drive, hs, hlim, htot⟩, -⟩ := h
  obtain ⟨_, c⟩ := s
  obtain rfl : _ = counted v ended drive := hs
  obtain ⟨owned, ⟨cx, bs, fin⟩ | ⟨cx, reg⟩ | _⟩ := a
  · obtain ⟨rfl, hb, he, ho, hgt, hlt⟩ := ht
    obtain rfl : ended = false := he
    rw [← htot] at hgt hlt
    have hw : v.count bs.length = .ok ⟨v.limit, v.total + bs.length, hlt⟩ := dif_pos hlt
    have hp : pollSendData cx (dataOf false bs) fin (counted v false drive, c) = _ :=
      call_refused ho hb hw (hlim ▸ hgt)
    refine ⟨⟨_, _, congrArg Obs.sent (congrArg Prod.fst hp)⟩, fun heq => ?_⟩
    have hsame : counted ⟨v.limit, v.total + bs.length, hlt⟩ false drive = counted v false drive :=
      (congrArg (fun p => p.2.1) hp).symm.trans heq
    have hz : v.total + bs.length = v.total := by
      have := LimitWrite.contentLength.inj (SendStream.mk.inj hsame).1
      exact congrArg ContentLengthWrite.total this
    exact hb (List.length_eq_zero_iff.mp (by omega))
  · exact ht.elim
  · exact ht.elim

/-! ### Runs -/

/-- **When refused chunks do no harm.**  Whatever is called on the stream of a message with
`content-length: n`, refusals for length leave it as it was, and what fits is accepted, if and only if
no call of `send_data` is too long. -/
theorem unharmed_iff (n : Nat) (hn : n < 2 ^ 64) (drive : Bool) (ops : List MixedOp) :
    Unharmed n ops (fresh n drive) ↔
      Along stepMixed (fun s a => ¬ TooLong n s a) ops (fresh n drive) := by
  refine ⟨fun h => ?_, fun h => ?_⟩
  · by_contra hno
    obtain ⟨pre, a, post, rfl, hpre, ht⟩ := first_failure hno
    have hexact : Exactly n (after stepMixed pre (fresh n drive)) :=
      run_invariant (I := Exactly n) (fun _ _ hs ht => (exactly_step hn hs ht).1) hpre
        (exactly_fresh n drive)
    obtain ⟨href, hne⟩ := TooLong.harms hexact (not_not.mp ht)
    exact hne (((along_append.mp h.refused).2.1 href).1)
  · have hinv := along_invariant (fun _ _ hs ht => (exactly_step hn hs ht).1) h (exactly_fresh n drive)
    refine ⟨hinv.mono fun s a hs hr => ?_, hinv.mono fun s a hs => (exactly_step hn hs.1 hs.2).2.2⟩
    exact absurd hr (exactly_step hn hs.1 hs.2).2.1

instance (n : Nat) (s : Out) : ∀ a, Decidable (TooLong n s a)
  | (_, .send ..) => inferInstanceAs (Decidable (_ ∧ _))
  | (_, .recv ..) => inferInstanceAs (Decidable False)
  | (_, .close) => inferInstanceAs (Decidable False)

/-- Three bytes in two calls, the first of them taken in between. -/
def twoCalls : List MixedOp :=
  [(false, .send 0 [1] false), (false, .recv 0 false), (false, .send 0 [2, 3] true)]

omit [VecAlloc] in
theorem unharmed_twoCalls :
    letI := VecAlloc.amortized
    Unharmed 3 twoCalls (fresh 3 false) :=
  (@unharmed_iff VecAlloc.amortized 3 (by decide) false twoCalls).mpr
    ⟨by decide +kernel, by decide +kernel, by decide +kernel, trivial⟩

/-- Five bytes for a body of three, and then three. -/
def tooLongFirst : List MixedOp :=
  [(false, .send 0 [1, 2, 3, 4, 5] false), (false, .send 0 [1, 2, 3] true)]

omit [VecAlloc] in
theorem tooLong_first : TooLong 3 (fresh 3 false) (false, .send 0 [1, 2, 3, 4, 5] false) :=
  ⟨rfl, by simp, rfl, by decide, by decide, by decide⟩

omit [VecAlloc] in
/-- **The body can not be sent any more** after a refusal: the three bytes it lacks are refused too. -/
theorem refused_then_refused :
    letI := VecAlloc.amortized
    let s := after stepMixed [(false, .send 0 [1, 2, 3, 4, 5] false)] (fresh 3 false)
    handed s = 0 ∧ FitsRest 3 s (false, .send 0 [1, 2, 3] true) ∧
      ¬ Ok s (false, .send 0 [1, 2, 3] true) ∧ ¬ Unharmed 3 tooLongFirst (fresh 3 false) := by
  let _ := VecAlloc.amortized
  obtain ⟨href, hne⟩ := TooLong.harms (exactly_fresh 3 false) tooLong_first
  exact ⟨by decide +kernel, ⟨by decide +kernel, by decide +kernel, by decide +kernel⟩,
    fun hok => absurd (Obs.sent.inj hok) (by decide +kernel), fun h => hne (h.refused.1 href).1⟩

end HreqH1.SendStream
