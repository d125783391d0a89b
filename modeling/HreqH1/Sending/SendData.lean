import HreqH1.Model.Share
import HreqH1.Support.Runs

/-!
# Sending — one call

What a poll of `send_data` or `send_data_owned` does, by the state it finds: the stream ended, the
channel closed or full, and otherwise by the limiter.  Everything else about sending is read off
these equations.
-/

namespace HreqH1
open PollM

namespace ChunkedEncoder
variable [VecAlloc]

omit [VecAlloc] in
/-- Slices that fit are appended one after the other. -/
theorem extend_all {b : FastBuf} {slices : List Bytes} (h : slices.flatten.length ≤ b.spare) :
    ∃ b', slices.foldlM (fun b s => b.extend s) b = .ok b' ∧
      b'.data = b.data ++ slices.flatten ∧ b'.capacity = b.capacity := by
  induction slices generalizing b with
  | nil => exact ⟨b, rfl, (List.append_nil _).symm, rfl⟩
  | cons s slices ih =>
      rw [List.flatten_cons, List.length_append] at h
      obtain ⟨b₁, he, hd, hc⟩ := FastBuf.extend_ok (b := b) (Nat.le_trans (Nat.le_add_right _ _) h)
      have hsp : slices.flatten.length ≤ b₁.spare := by
        rw [FastBuf.spare, FastBuf.len] at h ⊢
        rw [hd, hc, List.length_append]
        omega
      obtain ⟨b₂, he₂, hd₂, hc₂⟩ := ih hsp
      refine ⟨b₂, ?_, by rw [hd₂, hd, List.flatten_cons, List.append_assoc], hc₂.trans hc⟩
      rw [List.foldlM_cons, he]
      exact he₂

/-- `extend_from_slice` into a buffer with room. -/
theorem extendAll_ok {b : FastBuf} {slices : List Bytes} (h0 : 0 < b.spare)
    (h : slices.flatten.length ≤ b.spare) :
    ∃ b', extendAll b slices = .ok b' ∧ b'.data = b.data ++ slices.flatten ∧
      b'.capacity = b.capacity := by
  obtain ⟨b', he, hb'⟩ := extend_all h
  refine ⟨b', ?_, hb'⟩
  have hlt : b.len < b.capacity := by rw [FastBuf.spare] at h0; omega
  have hb : b.borrow = .ok b := by
    rw [FastBuf.borrow, if_neg (by omega), if_neg (by omega)]
    exact if_pos hlt
  rw [extendAll, hb]
  exact he

/-- A buffer of exactly the room for a slice takes the slice. -/
theorem extendAll_exact {bs : Bytes} (h : bs ≠ []) :
    ∃ out, extendAll (.withCapacity bs.length) [bs] = .ok out ∧ out.intoVec = bs := by
  have hpos : 0 < bs.length := List.length_pos_iff.mpr h
  have hflat : [bs].flatten = bs := List.flatten_singleton
  obtain ⟨out, ho, hd, -⟩ := @extendAll_ok _ (.withCapacity bs.length) [bs] hpos
    (by rw [hflat]; exact Nat.le_refl _)
  rw [hflat] at hd
  exact ⟨out, ho, hd⟩

end ChunkedEncoder

namespace SendStream
variable [VecAlloc]

variable {s : Out} {cx : Waker} {data : Data} {fin : Bool}

/-- A poll of a stream that has ended. -/
theorem pollSendData_ended (h : s.1.ended = true) :
    pollSendData cx data fin s =
      (if fin = true ∧ data.isEmpty = true then .ready ()
        else .fail (.user "Body data is not expected"), s) := by
  by_cases hf : fin = true ∧ data.isEmpty = true <;> simp [pollSendData, h, hf]

/-- A poll of a stream whose channel has no `Receiver`. -/
theorem pollSendData_closed (h : s.1.ended = false) (hc : s.2.receivers = 0) :
    pollSendData cx data fin s = (.fail connectionClosed, s) := by
  have hr : (onChan (Chan.pollReady cx true)) s = (.ready false, s) := by
    simp [onChan, Chan.pollReady_closed hc]
  simp [pollSendData, h, run_bind_ready hr]

/-- A poll of a stream whose channel is full. -/
theorem pollSendData_full (h : s.1.ended = false) (hc : s.2.receivers ≠ 0) (ho : ¬ s.2.Open) :
    pollSendData cx data fin s = (.pending, (s.1, s.2.register cx)) := by
  have hr : (onChan (Chan.pollReady cx true)) s = (.pending, (s.1, s.2.register cx)) := by
    simp [onChan, Chan.pollReady_full hc ho]
  simp [pollSendData, h, run_bind_pending hr]

/-- The bytes for the channel are found without touching the channel. -/
theorem toSend_chan : (toSend data fin s).2.2 = s.2 := by
  have hl : ∀ (chunk : FastBuf) x (t : Out), t.2 = s.2 →
      wp (onLimit chunk x) (fun _ u => u.2 = s.2) t := fun chunk x t ht => ht
  have hs : ∀ (chunk : FastBuf) (t : Out), t.2 = s.2 →
      wp (sealChunk fin chunk) (fun _ u => u.2 = s.2) t := by
    intro chunk t ht
    cases fin
    · exact ht
    · rw [sealChunk, if_pos rfl, wp_bind, wp_modify, bindPost, wp_bind]
      have hf := hl chunk LimitWrite.finish ({ t.1 with ended := true }, t.2) ht
      refine hf.mono fun r u hu => ?_
      cases r <;> exact hu
  suffices h : wp (toSend data fin) (fun _ t => t.2 = s.2) s from h
  rw [toSend, wp_bind, wp_get]
  simp only [bindPost, wp_ite]
  split
  · cases s.1.limit.acceptEntireVec data.bytes <;> simp [orPanic, bindPost]
  · rw [wp_bind]
    refine (hl _ _ s rfl).mono fun r t ht => ?_
    cases r with
    | ready chunk => exact hs chunk t ht
    | _ => exact ht

/-- A poll of a stream that can send: the bytes for the channel, and then the channel. -/
theorem pollSendData_open (h : s.1.ended = false) (hc : s.2.Open) :
    pollSendData cx data fin s =
      (toSend data fin >>= fun bs => modify fun t => (t.1, t.2.enqueue (bs, fin))) s := by
  have hr : (onChan (Chan.pollReady cx true)) s = (.ready true, s) := by
    simp [onChan, Chan.pollReady_open hc]
  simp only [pollSendData, run_get_bind, h, Bool.false_and, Bool.false_eq_true, if_false,
    run_bind_ready hr, Bool.not_true]
  have hch : (toSend data fin s).2.2 = s.2 := toSend_chan
  rcases hs : toSend data fin s with ⟨_ | bs | e | m | _, t⟩ <;> rw [hs] at hch
  · rw [run_bind_pending hs, run_bind_pending hs]
  · have hsent : (onChan (Chan.send (bs, fin))) t = (.ready true, (t.1, t.2.enqueue (bs, fin))) := by
      have : t.2.receivers ≠ 0 := by rw [hch]; exact hc.1
      simp [onChan, Chan.send_alive this]
    rw [run_bind_ready hs, run_bind_ready hs, run_bind_ready hsent]; rfl
  · rw [run_bind_fail hs, run_bind_fail hs]
  · rw [run_bind_panic hs, run_bind_panic hs]
  · rw [run_bind_diverge hs, run_bind_diverge hs]

/-- What a poll does to the channel: nothing but registering, or a stream that has not ended sends
one item, for which there is room. -/
theorem pollSendData_sends : wp (pollSendData cx data fin) (fun _ s' => s.2.Quiet s'.2 ∨
    s.1.ended = false ∧ s.2.Open ∧ ∃ bs, s'.2 = s.2.enqueue (bs, fin)) s := by
  cases h : s.1.ended with
  | true => exact wp_of_eq (pollSendData_ended h) (.inl (.refl _))
  | false =>
      by_cases h0 : s.2.receivers = 0
      · exact wp_of_eq (pollSendData_closed h h0) (.inl (.refl _))
      · by_cases ho : s.2.Open
        · rw [wp, pollSendData_open h ho]
          have hch : (toSend data fin s).2.2 = s.2 := toSend_chan
          rcases hs : toSend data fin s with ⟨_ | bs | e | m | _, t⟩ <;> rw [hs] at hch
          · rw [run_bind_pending hs]
            exact .inl (hch ▸ .refl _)
          · rw [run_bind_ready hs]
            exact .inr ⟨rfl, ho, bs, congrArg (Chan.enqueue (bs, fin)) hch⟩
          · rw [run_bind_fail hs]
            exact .inl (hch ▸ .refl _)
          · rw [run_bind_panic hs]
            exact .inl (hch ▸ .refl _)
          · rw [run_bind_diverge hs]
            exact .inl (hch ▸ .refl _)
        · exact wp_of_eq (pollSendData_full h h0 ho) (.inl ⟨rfl, rfl, rfl, rfl, rfl, rfl⟩)

theorem pollSendData_chan : wp (pollSendData cx data fin) (fun _ s' => s.2.Quiet s'.2 ∨
    s.2.receivers ≠ 0 ∧ ∃ bs, s'.2 = s.2.enqueue (bs, fin)) s :=
  pollSendData_sends.mono fun _ _ h => h.imp id fun h => ⟨h.2.1.1, h.2.2⟩

/-- The stream has ended once a chunk is sealed at the end of the body. -/
theorem sealChunk_ended {chunk : FastBuf} : (sealChunk true chunk s).2.1.ended = true := by
  have hl : (onLimit chunk LimitWrite.finish ({ s.1 with ended := true }, s.2)).2.1.ended = true :=
    rfl
  rw [sealChunk, if_pos rfl, run_modify_bind]
  rcases hf : onLimit chunk LimitWrite.finish ({ s.1 with ended := true }, s.2) with
    ⟨_ | out | e | m | _, t⟩ <;> rw [hf] at hl
  · rwa [run_bind_pending hf]
  · rwa [run_bind_ready hf]
  · rwa [run_bind_fail hf]
  · rwa [run_bind_panic hf]
  · rwa [run_bind_diverge hf]

/-- Shared data that is sent, and ends the body, ends the stream. -/
theorem toSend_shared_ended {bs out : Bytes} {t : Out}
    (h : toSend (.shared bs) true s = (.ready out, t)) : t.1.ended = true := by
  have heq : toSend (.shared bs) true s = (onLimit (.withCapacity (bs.length + s.1.limit.overhead))
      (LimitWrite.write bs) >>= sealChunk true) s := rfl
  rw [heq] at h
  rcases hw : onLimit (.withCapacity (bs.length + s.1.limit.overhead)) (LimitWrite.write bs) s with
    ⟨_ | chunk | e | m | _, u⟩
  · rw [run_bind_pending hw] at h; cases h
  · rw [run_bind_ready hw] at h
    have he : (sealChunk true chunk u).2.1.ended = true := sealChunk_ended
    rwa [h] at he
  · rw [run_bind_fail hw] at h; cases h
  · rw [run_bind_panic hw] at h; cases h
  · rw [run_bind_diverge hw] at h; cases h

/-! ### The bytes for the channel, by the limiter -/

/-- Only a content-length makes a difference between owned and shared data. -/
theorem toSend_owned_eq {bs : Bytes} (h : s.1.limit.canWriteEntireVec = false) :
    toSend (.owned bs) fin s = toSend (.shared bs) fin s := by
  simp [toSend, h, Data.isOwned, Data.bytes, Data.len]

variable {v w : ContentLengthWrite} {ended drive : Bool} {c : Chan (Bytes × Bool)} {bs : Bytes}

/-- A stream with a content-length. -/
abbrev counted (v : ContentLengthWrite) (ended drive : Bool) : SendStream :=
  ⟨.contentLength v, ended, drive⟩

/-- Owned data under a content-length: counted, and neither checked nor finished. -/
theorem toSend_owned (hw : v.count bs.length = .ok w) :
    toSend (.owned bs) fin (counted v ended drive, c) =
      (.ready bs, (counted w ended drive, c)) := by
  have ha : (LimitWrite.contentLength v).acceptEntireVec bs = .ok (.contentLength w) := by
    rw [LimitWrite.acceptEntireVec, hw]; rfl
  simp [toSend, Data.isOwned, Data.bytes, LimitWrite.canWriteEntireVec, ha, orPanic]

theorem toSend_owned_overflow {m : String} (hw : v.count bs.length = .error m) :
    toSend (.owned bs) fin (counted v ended drive, c) =
      (.panic m, (counted v ended drive, c)) := by
  have ha : (LimitWrite.contentLength v).acceptEntireVec bs = .error m := by
    rw [LimitWrite.acceptEntireVec, hw]; rfl
  simp [toSend, Data.isOwned, Data.bytes, LimitWrite.canWriteEntireVec, ha, orPanic]

/-- `finish` adds nothing to a body with a content-length. -/
theorem sealChunk_counted {chunk : FastBuf} :
    sealChunk fin chunk (counted v ended drive, c) =
      (.ready chunk.intoVec, (counted v (fin || ended) drive, c)) := by
  cases fin
  · rfl
  · simp [sealChunk, onLimit, LimitWrite.finish]

/-- Shared data under a content-length is written by `ContentLengthWrite`. -/
theorem toSend_shared_eq :
    toSend (.shared bs) fin (counted v ended drive, c) =
      (onLimit (.withCapacity bs.length) (LimitWrite.write bs) >>= sealChunk fin)
        (counted v ended drive, c) := by
  simp [toSend, Data.isOwned, Data.bytes, Data.len, LimitWrite.overhead]

/-- Empty shared data under a content-length. -/
theorem toSend_shared_nil :
    toSend (.shared []) fin (counted v ended drive, c) =
      (.ready [], (counted v (fin || ended) drive, c)) := by
  have hw : onLimit (.withCapacity 0) (LimitWrite.write []) (counted v ended drive, c) =
      (.ready (.withCapacity 0), (counted v ended drive, c)) := by
    simp [onLimit, LimitWrite.write, ContentLengthWrite.write]
  rw [toSend_shared_eq]
  exact (run_bind_ready hw).trans sealChunk_counted

/-- Shared data under a content-length that fits: counted, and `ended` where the body ends. -/
theorem toSend_shared_fits (hne : bs ≠ []) (hw : v.count bs.length = .ok w)
    (hle : w.total ≤ w.limit) :
    toSend (.shared bs) fin (counted v ended drive, c) =
      (.ready bs, (counted w (fin || ended) drive, c)) := by
  obtain ⟨out, ho, hv⟩ := ChunkedEncoder.extendAll_exact hne
  have hwr : onLimit (.withCapacity bs.length) (LimitWrite.write bs) (counted v ended drive, c) =
      (.ready out, (counted w ended drive, c)) := by
    simp [onLimit, LimitWrite.write, ContentLengthWrite.write, hne, hw, Nat.not_lt.mpr hle, ho,
      orPanic]
  rw [toSend_shared_eq, run_bind_ready hwr, sealChunk_counted, hv]

/-- The text of a refusal for length. -/
def lengthMessage (total limit : Nat) : String :=
  s!"Body data longer than content-length header: {toString total} > {toString limit}"

/-- A write past a content-length: refused, but counted. -/
theorem write_long {out : FastBuf} (hne : bs ≠ []) (hw : v.count bs.length = .ok w)
    (hgt : w.limit < w.total) :
    ContentLengthWrite.write bs (v, out) =
      (.fail (.user (lengthMessage w.total w.limit)), (w, out)) := by
  have hemp : ¬ bs.isEmpty = true := fun h => hne (List.isEmpty_iff.mp h)
  rw [ContentLengthWrite.write, if_neg hemp, run_get_bind, hw]
  show (if w.total > w.limit then (throw _ : PollM Error _ Unit) else _) (w, out) = _
  rw [if_pos hgt]
  rfl

/-- Shared data past a content-length: refused, but counted. -/
theorem toSend_shared_long (hne : bs ≠ []) (hw : v.count bs.length = .ok w)
    (hgt : w.limit < w.total) :
    toSend (.shared bs) fin (counted v ended drive, c) =
      (.fail (.user (lengthMessage w.total w.limit)), (counted w ended drive, c)) := by
  have hwr : onLimit (.withCapacity bs.length) (LimitWrite.write bs) (counted v ended drive, c) =
      (.fail (.user (lengthMessage w.total w.limit)), (counted w ended drive, c)) := by
    simp only [onLimit, LimitWrite.write, run_get_bind, run_zoom, write_long hne hw hgt]
    rfl
  rw [toSend_shared_eq, run_bind_fail hwr]

theorem toSend_shared_overflow {m : String} (hne : bs ≠ [])
    (hw : v.count bs.length = .error m) :
    toSend (.shared bs) fin (counted v ended drive, c) =
      (.panic m, (counted v ended drive, c)) := by
  rw [toSend_shared_eq]
  refine run_bind_panic ?_
  simp [onLimit, LimitWrite.write, ContentLengthWrite.write, hne, hw, orPanic]

/-! ### Calls, and the other end of the channel -/

/-- What happens to a stream: a poll of a call, or the other end of its channel takes an item or is
dropped. -/
inductive Op where
  | send (cx : Waker) (bs : Bytes) (fin : Bool)
  | recv (cx : Waker) (reg : Bool)
  | close

inductive Obs where
  | sent (r : Outcome Error Unit)
  | received (r : Outcome Error (Option (Bytes × Bool)))
  | closed

/-- The data of a call, through `send_data_owned` or through `send_data`. -/
def dataOf (owned : Bool) (bs : Bytes) : Data := if owned then .owned bs else .shared bs

/-- A step of a stream whose calls go through `send_data_owned`, or through `send_data`. -/
def step (owned : Bool) : Op → Out → Obs × Out
  | .send cx bs fin, s =>
      (.sent (pollSendData cx (dataOf owned bs) fin s).1,
        (pollSendData cx (dataOf owned bs) fin s).2)
  | .recv cx reg, s =>
      let polled := (Chan.pollRecv cx reg : PollM Error (Chan (Bytes × Bool)) _) s.2
      (.received polled.1, (s.1, polled.2))
  | .close, s => (.closed, (s.1, s.2.dropReceiver))

omit [VecAlloc] in
@[simp] theorem isEmpty_dataOf (owned : Bool) (bs : Bytes) :
    (dataOf owned bs).isEmpty = bs.isEmpty := by
  cases owned <;> rfl

end SendStream
end HreqH1
