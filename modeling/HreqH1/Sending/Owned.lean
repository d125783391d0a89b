import HreqH1.Sending.SendData

/-!
# Sending — owned data

`send_data_owned` is documented as `send_data` without a copy.  Under a content-length it is not:
its branch of `poll_send_data` counts the data, and neither checks the limit nor ends the stream.

`Deviates` is where the two part.  Along a run of `send_data` that never gets there, the same
calls through `send_data_owned` give the same run (`step_owned_eq`); and at the first call that
does, the results, or the `ended` flags from then on, differ (`owned_agrees_iff`).
-/

namespace HreqH1.SendStream
open Runs
variable [VecAlloc]

/-- A call on an open stream with a content-length, that ends the body or is past the limit. -/
def Deviates (s : Out) : Op → Prop
  | .send _ bs fin => ∃ v w drive, s.1 = counted v false drive ∧ s.2.Open ∧
      v.count bs.length = .ok w ∧ (fin = true ∨ bs ≠ [] ∧ w.limit < w.total)
  | _ => False

/-- The results of the calls of a run. -/
def results (obs : List Obs) : List (Outcome Error Unit) :=
  obs.filterMap fun | .sent r => some r | _ => none

/-- What calls come to: their results, the items put on the channel, the `ended` flag and the
limiter. -/
def comesTo (owned : Bool) (ops : List Op) (s : Out) :
    List (Outcome Error Unit) × List (Bytes × Bool) × Bool × LimitWrite :=
  (results (run (step owned) ops s).1, (after (step owned) ops s).2.sent,
    (after (step owned) ops s).1.ended, (after (step owned) ops s).1.limit)

/-- A call with data past the limit, by what has been counted. -/
def Past (s : Out) : Op → Prop
  | .send _ bs _ => ∃ v, s.1.limit = .contentLength v ∧ bs ≠ [] ∧ v.limit < v.total + bs.length
  | _ => False

/-- A call with data. -/
def HasData : Op → Prop
  | .send _ bs _ => bs ≠ []
  | _ => False

/-- A call that ends the body. -/
def Ends : Op → Prop
  | .send _ _ fin => fin = true
  | _ => False

def Accepted (owned : Bool) (s : Out) (op : Op) : Prop := (step owned op s).1 = .sent (.ready ())

/-- Data past the limit is not accepted. -/
def RefusesPast (owned : Bool) (ops : List Op) (s : Out) : Prop :=
  Along (step owned) (fun s op => Past s op → ¬ Accepted owned s op) ops s

/-- No data is accepted after an accepted end. -/
def EndIsFinal (owned : Bool) (ops : List Op) (s : Out) : Prop :=
  ∀ pre op post, ops = pre ++ op :: post → Ends op →
    Accepted owned (after (step owned) pre s) op →
    Along (step owned) (fun s op => HasData op → ¬ Accepted owned s op) post
      (after (step owned) (pre ++ [op]) s)

/-- The two entry points agree on the calls `ops`. -/
structure Agrees (ops : List Op) (s : Out) : Prop where
  same : comesTo true ops s = comesTo false ops s
  refusesPast : ∀ owned, RefusesPast owned ops s
  endIsFinal : ∀ owned, EndIsFinal owned ops s

variable {s : Out} {op : Op} {ops : List Op}

/-! ### One call -/

/-- Where a call does not deviate, the two entry points do the same. -/
theorem step_owned_eq (h : ¬ Deviates s op) : step true op s = step false op s := by
  cases op with
  | recv cx reg => rfl
  | close => rfl
  | send cx bs fin =>
      suffices hp : pollSendData cx (.owned bs) fin s = pollSendData cx (.shared bs) fin s by
        simp only [step, dataOf, if_true, Bool.false_eq_true, if_false, hp]
      cases he : s.1.ended with
      | true => rw [pollSendData_ended he, pollSendData_ended he]; rfl
      | false =>
          by_cases hc : s.2.receivers = 0
          · rw [pollSendData_closed he hc, pollSendData_closed he hc]
          by_cases ho : s.2.Open
          swap
          · rw [pollSendData_full he hc ho, pollSendData_full he hc ho]
          rw [pollSendData_open he ho, pollSendData_open he ho]
          suffices ht : toSend (.owned bs) fin s = toSend (.shared bs) fin s by
            show PollM.bind _ _ s = PollM.bind _ _ s
            rw [PollM.bind, PollM.bind, ht]
          obtain ⟨⟨_ | v | _, ended, drive⟩, c⟩ := s
          · exact toSend_owned_eq rfl
          · obtain rfl : ended = false := he
            rcases eq_or_ne bs [] with rfl | hb
            · obtain rfl : fin = false := Bool.not_eq_true _ ▸ fun hf =>
                h ⟨v, v, drive, rfl, ho, v.count_zero, .inl hf⟩
              rw [toSend_owned v.count_zero, toSend_shared_nil]; rfl
            cases hw : v.count bs.length with
            | error m => rw [toSend_owned_overflow hw, toSend_shared_overflow hb hw]
            | ok w =>
                have hd : ¬ (fin = true ∨ bs ≠ [] ∧ w.limit < w.total) := fun hd =>
                  h ⟨v, w, drive, rfl, ho, hw, hd⟩
                simp only [not_or, Bool.not_eq_true, not_and, Nat.not_lt] at hd
                obtain ⟨rfl, hle⟩ := hd
                rw [toSend_owned hw, toSend_shared_fits hb hw (hle hb)]; rfl
          · exact toSend_owned_eq rfl

/-- A call that deviates is accepted by `send_data_owned`, and the stream stays open. -/
theorem step_owned_deviates (h : Deviates s op) :
    (step true op s).1 = .sent (.ready ()) ∧
      ∃ v drive, (step true op s).2.1 = counted v false drive := by
  cases op with
  | recv cx reg => exact h.elim
  | close => exact h.elim
  | send cx bs fin =>
      obtain ⟨v, w, drive, hs, ho, hw, -⟩ := h
      obtain ⟨_, c⟩ := s
      obtain rfl : _ = counted v false drive := hs
      have hp : pollSendData cx (.owned bs) fin (counted v false drive, c) =
          (.ready (), (counted w false drive, c.enqueue (bs, fin))) := by
        rw [pollSendData_open rfl ho, PollM.run_bind_ready (toSend_owned hw)]; rfl
      exact ⟨congrArg Obs.sent (congrArg Prod.fst hp), w, drive,
        congrArg Prod.fst (congrArg Prod.snd hp)⟩

/-- A call that deviates is refused by `send_data`, or it ends the stream. -/
theorem step_shared_deviates (h : Deviates s op) :
    (step false op s).1 ≠ .sent (.ready ()) ∨ (step false op s).2.1.ended = true := by
  cases op with
  | recv cx reg => exact h.elim
  | close => exact h.elim
  | send cx bs fin =>
      obtain ⟨v, w, drive, hs, ho, hw, hd⟩ := h
      obtain ⟨_, c⟩ := s
      obtain rfl : _ = counted v false drive := hs
      have hp : pollSendData cx (.shared bs) fin (counted v false drive, c) = _ :=
        pollSendData_open rfl ho
      rcases eq_or_ne bs [] with rfl | hb
      · obtain rfl : fin = true := hd.resolve_right fun h => h.1 rfl
        rw [PollM.run_bind_ready toSend_shared_nil] at hp
        exact .inr (congrArg (fun p => p.2.1.ended) hp)
      by_cases hgt : w.limit < w.total
      · rw [PollM.run_bind_fail (toSend_shared_long hb hw hgt)] at hp
        refine .inl fun hr => ?_
        cases (congrArg Prod.fst hp).symm.trans (Obs.sent.inj hr)
      · obtain rfl : fin = true := hd.resolve_right fun h => hgt h.2
        rw [PollM.run_bind_ready (toSend_shared_fits hb hw (Nat.not_lt.mp hgt))] at hp
        exact .inr (congrArg (fun p => p.2.1.ended) hp)

/-! ### What stays -/

/-- Through `send_data_owned`, a stream with a content-length never ends. -/
theorem step_owned_open (h : ∃ v drive, s.1 = counted v false drive) :
    ∃ v drive, (step true op s).2.1 = counted v false drive := by
  obtain ⟨v, drive, hs⟩ := h
  cases op with
  | recv cx reg => exact ⟨v, drive, hs⟩
  | close => exact ⟨v, drive, hs⟩
  | send cx bs fin =>
      obtain ⟨_, c⟩ := s
      obtain rfl : _ = counted v false drive := hs
      show ∃ v' drive', (pollSendData cx (.owned bs) fin _).2.1 = counted v' false drive'
      by_cases hc : c.receivers = 0
      · exact ⟨v, drive, by rw [pollSendData_closed rfl hc]⟩
      by_cases ho : c.Open
      swap
      · exact ⟨v, drive, by rw [pollSendData_full rfl hc ho]⟩
      rw [pollSendData_open rfl ho]
      cases hw : v.count bs.length with
      | error m => exact ⟨v, drive, by rw [PollM.run_bind_panic (toSend_owned_overflow hw)]⟩
      | ok w => exact ⟨w, drive, by rw [PollM.run_bind_ready (toSend_owned hw)]; rfl⟩

/-- A stream that has ended stays so. -/
theorem step_ended {owned : Bool} (h : s.1.ended = true) :
    (step owned op s).2.1.ended = true := by
  cases op with
  | recv cx reg => exact h
  | close => exact h
  | send cx bs fin =>
      show (pollSendData cx _ fin s).2.1.ended = true
      rw [pollSendData_ended h]
      exact h

/-! ### Runs -/

theorem comesTo_cons (owned : Bool) :
    comesTo owned (op :: ops) s =
      (results [(step owned op s).1] ++ (comesTo owned ops (step owned op s).2).1,
        (comesTo owned ops (step owned op s).2).2) := by
  simp only [comesTo, results, run_cons, after, ← List.filterMap_append, List.singleton_append]

/-- A first call that deviates shows in what the calls come to. -/
theorem comesTo_deviates (h : Deviates s op) :
    comesTo true (op :: ops) s ≠ comesTo false (op :: ops) s := by
  intro heq
  have hres : results (run (step true) (op :: ops) s).1 =
      results (run (step false) (op :: ops) s).1 := congrArg Prod.fst heq
  have hend : (after (step true) (op :: ops) s).1.ended =
      (after (step false) (op :: ops) s).1.ended := congrArg (fun p => p.2.2.1) heq
  obtain ⟨hready, hopen⟩ := step_owned_deviates h
  rcases step_shared_deviates h with hne | hended
  · cases op with
    | recv cx reg => exact h
    | close => exact h
    | send cx bs fin =>
        rw [run_cons, run_cons, hready] at hres
        exact hne (congrArg Obs.sent (List.cons.inj hres).1.symm)
  · have ht : (after (step false) ops (step false op s).2).1.ended = true :=
      run_invariant (I := fun s : Out => s.1.ended = true) (fun _ _ hs _ => step_ended hs)
        (along_true ops _) hended
    obtain ⟨v, drive, hv⟩ : ∃ v drive, (after (step true) ops (step true op s).2).1 =
        counted v false drive :=
      run_invariant (I := fun s : Out => ∃ v drive, s.1 = counted v false drive)
        (fun _ _ hs _ => step_owned_open hs) (along_true ops _) hopen
    have hf : (after (step true) ops (step true op s).2).1.ended = false := by rw [hv]
    exact Bool.false_ne_true (hf.symm.trans (hend.trans ht))

/-- Calls that never deviate come to the same. -/
theorem comesTo_eq_iff :
    comesTo true ops s = comesTo false ops s ↔
      Along (step false) (fun s op => ¬ Deviates s op) ops s := by
  induction ops generalizing s with
  | nil => exact ⟨fun _ => trivial, fun _ => rfl⟩
  | cons op ops ih =>
      by_cases hd : Deviates s op
      · exact ⟨fun heq => absurd heq (comesTo_deviates hd), fun h => absurd hd h.1⟩
      rw [comesTo_cons, comesTo_cons, step_owned_eq hd]
      refine ⟨fun heq => ⟨hd, ih.mp ?_⟩, fun h => ?_⟩
      · exact Prod.ext (List.append_cancel_left (congrArg Prod.fst heq))
          (congrArg (fun p => p.2) heq)
      · rw [ih.mpr h.2]

/-! ### What `send_data` refuses -/

theorem shared_refuses_past (h : Past s op) : ¬ Accepted false s op := by
  cases op with
  | recv cx reg => exact h.elim
  | close => exact h.elim
  | send cx bs fin =>
      obtain ⟨v, hl, hb, hgt⟩ := h
      intro hacc
      have hr : (pollSendData cx (.shared bs) fin s).1 = .ready () := Obs.sent.inj hacc
      obtain ⟨⟨_, ended, drive⟩, c⟩ := s
      obtain rfl : _ = LimitWrite.contentLength v := hl
      cases ended with
      | true =>
          rw [pollSendData_ended rfl, if_neg fun h => hb (List.isEmpty_iff.mp h.2)] at hr
          cases hr
      | false =>
          by_cases hc : c.receivers = 0
          · rw [pollSendData_closed rfl hc] at hr; cases hr
          by_cases ho : c.Open
          swap
          · rw [pollSendData_full rfl hc ho] at hr; cases hr
          rw [pollSendData_open rfl ho] at hr
          cases hw : v.count bs.length with
          | error m => rw [PollM.run_bind_panic (toSend_shared_overflow hb hw)] at hr; cases hr
          | ok w =>
              obtain ⟨hlim, htot⟩ := ContentLengthWrite.count_ok hw
              rw [PollM.run_bind_fail (toSend_shared_long hb hw (hlim ▸ htot ▸ hgt))] at hr
              cases hr

theorem shared_accepted_end (he : Ends op) (h : Accepted false s op) :
    (step false op s).2.1.ended = true := by
  cases op with
  | recv cx reg => exact he.elim
  | close => exact he.elim
  | send cx bs fin =>
      obtain rfl : fin = true := he
      have hr : (pollSendData cx (.shared bs) true s).1 = .ready () := Obs.sent.inj h
      show (pollSendData cx (.shared bs) true s).2.1.ended = true
      cases hs : s.1.ended with
      | true => rw [pollSendData_ended hs]; exact hs
      | false =>
          by_cases hc : s.2.receivers = 0
          · rw [pollSendData_closed hs hc] at hr; cases hr
          by_cases ho : s.2.Open
          swap
          · rw [pollSendData_full hs hc ho] at hr; cases hr
          rw [pollSendData_open hs ho] at hr ⊢
          rcases ht : toSend (.shared bs) true s with ⟨_ | out | e | m | _, t⟩
          · rw [PollM.run_bind_pending ht] at hr; cases hr
          · rw [PollM.run_bind_ready ht]; show t.1.ended = true; exact toSend_shared_ended ht
          · rw [PollM.run_bind_fail ht] at hr; cases hr
          · rw [PollM.run_bind_panic ht] at hr; cases hr
          · rw [PollM.run_bind_diverge ht] at hr; cases hr

/-- A stream that has ended takes no data. -/
theorem ended_refuses {owned : Bool} (hs : s.1.ended = true) (hd : HasData op) :
    ¬ Accepted owned s op := by
  cases op with
  | recv cx reg => exact hd.elim
  | close => exact hd.elim
  | send cx bs fin =>
      intro h
      have hr : (pollSendData cx (dataOf owned bs) fin s).1 = .ready () := Obs.sent.inj h
      have hne : ¬ (fin = true ∧ (dataOf owned bs).isEmpty = true) := fun h =>
        hd (List.isEmpty_iff.mp (isEmpty_dataOf owned bs ▸ h.2))
      rw [pollSendData_ended hs, if_neg hne] at hr
      cases hr

/-- **When owned data agrees.**  The two entry points agree on some calls if and only if, when
they go through `send_data`, none of them ends or exceeds a body with a content-length. -/
theorem owned_agrees_iff (ops : List Op) (s : Out) :
    Agrees ops s ↔ Along (step false) (fun s op => ¬ Deviates s op) ops s := by
  refine ⟨fun h => comesTo_eq_iff.mp h.same, fun h => ?_⟩
  -- Along the run every call is the same call of `send_data`.
  have hall : ∀ owned, Along (step owned)
      (fun s op => ∀ o, step o op s = step false op s) ops s := by
    have heq : ∀ s op, ¬ Deviates s op → ∀ o, step o op s = step false op s := by
      intro s op hd o
      cases o
      · rfl
      · exact step_owned_eq hd
    intro owned
    exact (h.congr fun s op hd => (heq s op hd owned).symm).mono heq
  refine ⟨comesTo_eq_iff.mpr h, fun owned => ?_, fun owned pre op post hops hend hacc => ?_⟩
  · exact (hall owned).mono fun s op heq hpast hacc =>
      shared_refuses_past hpast (by rw [Accepted, ← heq owned]; exact hacc)
  · have hmid := hall owned
    rw [hops, along_append] at hmid
    have heq := hmid.2.1 owned
    have hended : (after (step owned) (pre ++ [op]) s).1.ended = true := by
      rw [after, run_append]
      show (step owned op _).2.1.ended = true
      rw [heq]
      exact shared_accepted_end hend (by rw [Accepted, ← heq]; exact hacc)
    exact (along_invariant (I := fun s : Out => s.1.ended = true)
      (fun _ _ hs _ => step_ended hs) (along_true post _) hended).mono
      fun s op hs => ended_refuses hs.1

omit [VecAlloc] in
/-- Two bytes for a content-length of one are accepted as owned data. -/
theorem owned_disagrees :
    letI := VecAlloc.amortized
    ¬ Agrees [.send 0 [1, 2] false]
      (⟨LimitWrite.fromHeaders [(ascii "content-length", ascii "1")], false, false⟩, Chan.new 1) := by
  let _ := VecAlloc.amortized
  have hl : LimitWrite.fromHeaders [(ascii "content-length", ascii "1")] =
      .contentLength ⟨1, 0, by decide⟩ := by decide
  rw [hl]
  have hd : Deviates (counted ⟨1, 0, by decide⟩ false false, Chan.new 1) (.send 0 [1, 2] false) :=
    ⟨⟨1, 0, by decide⟩, ⟨1, 2, by decide⟩, false, rfl, by decide, rfl, .inr ⟨by decide, by decide⟩⟩
  exact fun h => comesTo_deviates hd h.same

end HreqH1.SendStream
