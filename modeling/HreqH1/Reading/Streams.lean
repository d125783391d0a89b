import HreqH1.Model.Share

/-!
# Reading — streams

`poll_body_data` of a `RecvStream`, on the channel of its body.  A read ships out from the chunk that is
ready, or from the next one on the channel, or else shows what the channel shows: an error, that it is
closed, or that it waits (`Ships`, `pollBodyData_ships`).

* `Holds`: there is no error on the channel; all that is held is returned in its order
  (`pollBodyData_spec`).
* `Fits`: there may be one (`pollBodyData_reads`).
* `Shown`: of what has been put on the channel nothing is lost (`Shown.read`).
-/

namespace HreqH1.RecvStream
open PollM

/-- The bytes of an item of the channel. -/
def itemBytes : Except IoError Bytes → Bytes
  | .ok bs => bs
  | .error _ => []

/-- The rest of the chunk that is being read. -/
def readyBytes (recv : RecvStream) : Bytes :=
  match recv.ready with
  | some ready => ready.rest
  | none => []

/-- The bytes that have been received and not read yet. -/
def held (recv : RecvStream) (body : Chan (Except IoError Bytes)) : Bytes :=
  recv.readyBytes ++ body.queue.flatMap itemBytes

/-- The first of them, which are read from next. -/
def front (recv : RecvStream) (body : Chan (Except IoError Bytes)) : Bytes :=
  match recv.ready with
  | some ready => ready.rest
  | none => (body.queue.head?.map itemBytes).getD []

/-- Nothing that is held is empty or an error, and after the end of the body nothing is held. -/
structure Holds (recv : RecvStream) (body : Chan (Except IoError Bytes)) : Prop where
  ready : ∀ ready, recv.ready = some ready → ready.rest ≠ []
  chunks : ∀ item ∈ body.queue, ∃ bs, item = .ok bs ∧ bs ≠ []
  ended : recv.ended = true → recv.ready = none ∧ body.queue = [] ∧ body.senders = 0

variable {recv : RecvStream} {body body' : Chan (Except IoError Bytes)} {cx : Waker} {n : Nat}

theorem front_ready {ready : ConsumeBuf} (hr : recv.ready = some ready) :
    recv.front body = ready.rest := by
  rw [front, hr]

theorem front_cons {item : Except IoError Bytes} {q : List (Except IoError Bytes)}
    (hr : recv.ready = none) (hq : body.queue = item :: q) : recv.front body = itemBytes item := by
  rw [front, hr, hq]
  rfl

theorem front_nil (hr : recv.ready = none) (hq : body.queue = []) : recv.front body = [] := by
  rw [front, hr, hq]
  rfl

theorem front_prefix_held : recv.front body <+: recv.held body := by
  rw [front, held, readyBytes]
  cases recv.ready with
  | some ready => exact List.prefix_append _ _
  | none =>
      cases body.queue with
      | nil => exact List.prefix_refl _
      | cons item q => exact List.prefix_append _ _

/-- More chunks are held behind the others. -/
theorem held_prefix (h : body.queue <+: body'.queue) : recv.held body <+: recv.held body' := by
  obtain ⟨later, hq⟩ := h
  refine ⟨later.flatMap itemBytes, ?_⟩
  rw [held, held, ← hq, List.flatMap_append, List.append_assoc]

/-- Something is held: the front of it is not empty. -/
theorem Holds.front_ne (h : Holds recv body) (hs : recv.ready.isSome = true ∨ body.queue ≠ []) :
    recv.front body ≠ [] := by
  cases hr : recv.ready with
  | some ready =>
      rw [front_ready hr]
      exact h.ready ready hr
  | none =>
      cases hq : body.queue with
      | nil => rw [hr, hq] at hs; simp at hs
      | cons item q =>
          obtain ⟨bs, rfl, hne⟩ := h.chunks item (by rw [hq]; exact List.mem_cons_self)
          rw [front_cons hr hq]
          exact hne

theorem front_eq (h : body.queue <+: body'.queue)
    (hs : recv.ready.isSome = true ∨ body.queue ≠ []) : recv.front body' = recv.front body := by
  cases hr : recv.ready with
  | some ready => rw [front_ready hr, front_ready hr]
  | none =>
      obtain ⟨later, hq⟩ := h
      cases hb : body.queue with
      | nil => rw [hr, hb] at hs; simp at hs
      | cons item q =>
          rw [hb] at hq
          rw [front_cons hr hq.symm, front_cons hr hb]

/-! ### One read -/

/-- A round that ships out what is ready. -/
theorem bodyRound_ready {ready : ConsumeBuf} (h : recv.ready = some ready) :
    ∃ ready' : ConsumeBuf, ready'.rest = ready.rest.drop n ∧
      bodyRound cx n () (recv, body) = (.ready (.done (ready.rest.take n)),
        ({ recv with ready := if ready'.isEmpty then none else some ready' }, body)) := by
  have hle : (ready.rest.take n).length ≤ ready.len := by
    rw [← ConsumeBuf.length_rest, List.length_take]
    exact Nat.min_le_right _ _
  obtain ⟨ready', hc, hrest⟩ := ConsumeBuf.consume_ok hle
  refine ⟨ready', ?_, ?_⟩
  · rw [hrest, List.length_take]
    rcases Nat.le_total n ready.rest.length with h | h
    · rw [Nat.min_eq_left h]
    · rw [Nat.min_eq_right h, List.drop_of_length_le h, List.drop_of_length_le (Nat.le_refl _)]
  · rw [bodyRound, run_get_bind, h]
    dsimp only
    rw [hc]
    rfl

/-- A round that finds the channel empty. -/
theorem bodyRound_nil (hr : recv.ready = none) (hq : body.queue = []) :
    bodyRound cx n () (recv, body) =
      if body.senders = 0 then
        (.ready (.done []), ({ recv with ended := true }, body.register cx))
      else (.pending, (recv, body.register cx)) := by
  obtain ⟨ready, e, d⟩ := recv
  obtain rfl : ready = none := hr
  rw [bodyRound, run_get_bind]
  dsimp only
  by_cases h0 : body.senders = 0
  · have hx : (zoom Prod.snd (fun s c => (s.1, c)) (Chan.pollRecv cx true) :
        PollM IoError In _) (⟨none, e, d⟩, body) =
          (.ready none, (⟨none, e, d⟩, body.register cx)) := by
      rw [run_zoom, Chan.pollRecv_nil hq, if_pos h0]
      rfl
    rw [if_pos h0, run_bind_ready hx]
    rfl
  · have hx : (zoom Prod.snd (fun s c => (s.1, c)) (Chan.pollRecv cx true) :
        PollM IoError In _) (⟨none, e, d⟩, body) =
          (.pending, (⟨none, e, d⟩, body.register cx)) := by
      rw [run_zoom, Chan.pollRecv_nil hq, if_neg h0]
      rfl
    rw [if_neg h0, run_bind_pending hx]

/-- A round that takes a chunk from the channel. -/
theorem bodyRound_cons {bs : Bytes} {q : List (Except IoError Bytes)} (hr : recv.ready = none)
    (hq : body.queue = .ok bs :: q) : bodyRound cx n () (recv, body) =
      (.ready (.again ()),
        ({ recv with ready := some (.new bs) }, { body with queue := q }.wakeAll)) := by
  have hx : (zoom Prod.snd (fun s c => (s.1, c)) (Chan.pollRecv cx true) : PollM IoError In _)
      (recv, body) = (.ready (some (.ok bs)), (recv, { body with queue := q }.wakeAll)) := by
    rw [run_zoom, Chan.pollRecv_cons hq]
  rw [bodyRound, run_get_bind, hr]
  dsimp only
  rw [run_bind_ready hx]
  rfl

theorem pollBodyData_open (he : recv.ended = false) : pollBodyData cx n (recv, body) =
    loopN (bodyRound cx n) ((if recv.ready.isSome then 0 else 1) + 1) () (recv, body) := by
  rw [pollBodyData, run_get_bind, he]
  rfl

/-- A round that takes an error from the channel. -/
theorem bodyRound_error {e : IoError} {q : List (Except IoError Bytes)} (hr : recv.ready = none)
    (hq : body.queue = .error e :: q) :
    bodyRound cx n () (recv, body) = (.fail e, (recv, { body with queue := q }.wakeAll)) := by
  have hx : (zoom Prod.snd (fun s c => (s.1, c)) (Chan.pollRecv cx true) : PollM IoError In _)
      (recv, body) = (.ready (some (.error e)), (recv, { body with queue := q }.wakeAll)) := by
    rw [run_zoom, Chan.pollRecv_cons hq]
  rw [bodyRound, run_get_bind, hr]
  dsimp only
  rw [run_bind_ready hx]
  rfl

/-- The stream once it has shipped out `ready` down to `rest`. -/
def shipped (recv : RecvStream) (rest : ConsumeBuf) : RecvStream :=
  { recv with ready := if rest.isEmpty then none else some rest }

/-- How a read goes. -/
inductive Ships (cx : Waker) (n : Nat) (recv : RecvStream) (body : Chan (Except IoError Bytes)) :
    Outcome IoError Bytes → In → Prop where
  | ended (he : recv.ended = true) : Ships cx n recv body (.ready []) (recv, body)
  | ready {ready rest : ConsumeBuf} (he : recv.ended = false) (hr : recv.ready = some ready)
      (hrest : rest.rest = ready.rest.drop n) :
      Ships cx n recv body (.ready (ready.rest.take n)) (recv.shipped rest, body)
  | chunk {bs : Bytes} {rest : ConsumeBuf} {q : List (Except IoError Bytes)}
      (he : recv.ended = false) (hr : recv.ready = none) (hq : body.queue = .ok bs :: q)
      (hrest : rest.rest = bs.drop n) :
      Ships cx n recv body (.ready (bs.take n))
        (recv.shipped rest, { body with queue := q }.wakeAll)
  | error {e : IoError} {q : List (Except IoError Bytes)} (he : recv.ended = false)
      (hr : recv.ready = none) (hq : body.queue = .error e :: q) :
      Ships cx n recv body (.fail e) (recv, { body with queue := q }.wakeAll)
  | closed (he : recv.ended = false) (hr : recv.ready = none) (hq : body.queue = [])
      (h0 : body.senders = 0) :
      Ships cx n recv body (.ready []) ({ recv with ended := true }, body.register cx)
  | waits (he : recv.ended = false) (hr : recv.ready = none) (hq : body.queue = [])
      (h0 : body.senders ≠ 0) : Ships cx n recv body .pending (recv, body.register cx)

/-- **What a read does.** -/
theorem pollBodyData_ships : wp (pollBodyData cx n) (Ships cx n recv body) (recv, body) := by
  by_cases he : recv.ended = true
  · have hx : pollBodyData cx n (recv, body) = (.ready [], (recv, body)) := by
      rw [pollBodyData, run_get_bind, if_pos he]
      rfl
    exact wp_of_eq hx (.ended he)
  rw [Bool.not_eq_true] at he
  have hx := @pollBodyData_open recv body cx n he
  cases hr : recv.ready with
  | some ready =>
      obtain ⟨rest, hrest, hround⟩ := @bodyRound_ready recv body cx n ready hr
      rw [hr, Option.isSome_some, if_pos rfl, loopN, PollM.bind, hround] at hx
      exact wp_of_eq hx (.ready he hr hrest)
  | none =>
      rw [hr, Option.isSome_none, if_neg Bool.false_ne_true, loopN, PollM.bind] at hx
      cases hq : body.queue with
      | nil =>
          rw [bodyRound_nil hr hq] at hx
          by_cases h0 : body.senders = 0
          · rw [if_pos h0] at hx
            exact wp_of_eq hx (.closed he hr hq h0)
          · rw [if_neg h0] at hx
            exact wp_of_eq hx (.waits he hr hq h0)
      | cons item q =>
          cases item with
          | error e =>
              rw [bodyRound_error hr hq] at hx
              exact wp_of_eq hx (.error he hr hq)
          | ok bs =>
              rw [bodyRound_cons hr hq] at hx
              dsimp only at hx
              -- The chunk is ready then, and the next round ships it out.
              obtain ⟨rest, hrest, hround⟩ := @bodyRound_ready
                { recv with ready := some (.new bs) } { body with queue := q }.wakeAll cx n _ rfl
              rw [loopN, PollM.bind, hround] at hx
              exact wp_of_eq hx (.chunk he hr hq hrest)

section Shipped
variable {rest : ConsumeBuf} {bs : Bytes}

theorem readyBytes_shipped : (recv.shipped rest).readyBytes = rest.rest := by
  rw [readyBytes, shipped]
  by_cases he : rest.isEmpty = true
  · rw [if_pos he, (ConsumeBuf.isEmpty_iff _).mp he]
  · rw [if_neg he]

/-- What is left ready is not empty. -/
theorem shipped_ready {ready : ConsumeBuf} (h : (recv.shipped rest).ready = some ready) :
    ready.rest ≠ [] := by
  rw [shipped] at h
  split at h
  · cases h
  · next he =>
    cases h
    exact fun hnil => he ((ConsumeBuf.isEmpty_iff _).mpr hnil)

end Shipped

/-! ### Without errors -/

/-- What a read of the held bytes comes to: it takes from the front, and is pending only where nothing
is held. -/
def ReadPost (n : Nat) (recv : RecvStream) (body : Chan (Except IoError Bytes)) :
    Outcome IoError Bytes → In → Prop
  | .ready bs, t => bs = (recv.front body).take n ∧ bs ++ t.1.held t.2 = recv.held body
  | .pending, _ => recv.front body = []
  | .fail _, _ => False
  | .panic _, _ => False
  | .diverge, _ => False

theorem pollBodyData_spec (h : Holds recv body) :
    wp (pollBodyData cx n) (fun r t => Holds t.1 t.2 ∧ t.2.senders = body.senders ∧
      ReadPost n recv body r t) (recv, body) := by
  refine pollBodyData_ships.mono fun o t hs => ?_
  cases hs with
  | ended he =>
      obtain ⟨hr, hq, -⟩ := h.ended he
      exact ⟨h, rfl, by rw [front_nil hr hq, List.take_nil], rfl⟩
  | @ready ready rest he hr hrest =>
      refine ⟨⟨fun b => shipped_ready, h.chunks, fun hend => ?_⟩, rfl, by rw [front_ready hr], ?_⟩
      · cases he.symm.trans hend
      · rw [held, readyBytes_shipped, hrest, ← List.append_assoc, List.take_append_drop, held,
          readyBytes, hr]
  | @chunk bs rest q he hr hq hrest =>
      refine ⟨⟨fun b => shipped_ready, fun i hi => h.chunks i ?_, fun hend => ?_⟩, rfl,
        by rw [front_cons hr hq]; rfl, ?_⟩
      · rw [hq]
        exact List.mem_cons_of_mem _ hi
      · cases he.symm.trans hend
      · rw [held, readyBytes_shipped, hrest, ← List.append_assoc, List.take_append_drop, held,
          readyBytes, hr, hq]
        rfl
  | error he hr hq =>
      obtain ⟨bs, hbs, -⟩ := h.chunks _ (by rw [hq]; exact List.mem_cons_self)
      cases hbs
  | closed he hr hq h0 =>
      refine ⟨⟨h.ready, h.chunks, fun _ => ⟨hr, hq, h0⟩⟩, rfl, ?_, rfl⟩
      rw [front_nil hr hq, List.take_nil]
  | waits he hr hq h0 => exact ⟨⟨h.ready, h.chunks, h.ended⟩, rfl, front_nil hr hq⟩

/-! ### With an error -/

/-- No chunk that is held is empty, and after the end of the body nothing is held. -/
structure Fits (recv : RecvStream) (body : Chan (Except IoError Bytes)) : Prop where
  ready : ∀ ready, recv.ready = some ready → ready.rest ≠ []
  chunks : ∀ bs, .ok bs ∈ body.queue → bs ≠ []
  ended : recv.ended = true → recv.ready = none ∧ body.queue = [] ∧ body.senders = 0

theorem Holds.fits (h : Holds recv body) : Fits recv body where
  ready := h.ready
  chunks := fun bs hbs => by
    obtain ⟨bs', heq, hne⟩ := h.chunks _ hbs
    cases heq
    exact hne
  ended := h.ended

/-- An error is on the channel. -/
def Failing (body : Chan (Except IoError Bytes)) : Prop := ∃ e, .error e ∈ body.queue

/-- What a read leaves of the channel; an error on it is returned, or still there. -/
structure Reads (body : Chan (Except IoError Bytes)) (o : Outcome IoError Bytes) (t : In) :
    Prop where
  fits : t.1.Fits t.2
  senders : t.2.senders = body.senders
  receivers : t.2.receivers = body.receivers
  ended : t.2.ended = body.ended
  failing : Failing body → (∃ e, o = .fail e) ∨ Failing t.2

theorem pollBodyData_reads (h : Fits recv body) :
    wp (pollBodyData cx n) (Reads body) (recv, body) := by
  refine pollBodyData_ships.mono fun o t hs => ?_
  have hrest : ∀ {item q}, body.queue = item :: q → ∀ i ∈ q, i ∈ body.queue := by
    intro item q hq i hi
    rw [hq]
    exact List.mem_cons_of_mem _ hi
  cases hs with
  | ended he => exact ⟨h, rfl, rfl, rfl, .inr⟩
  | ready he hr hrest =>
      refine ⟨⟨fun b => shipped_ready, h.chunks, fun hend => ?_⟩, rfl, rfl, rfl, .inr⟩
      cases he.symm.trans hend
  | chunk he hr hq hrest' =>
      refine ⟨⟨fun b => shipped_ready, fun bs hbs => h.chunks bs (hrest hq _ hbs), fun hend => ?_⟩,
        rfl, rfl, rfl, ?_⟩
      · cases he.symm.trans hend
      · rintro ⟨e, he⟩
        rw [hq] at he
        exact .inr ⟨e, (List.mem_cons.mp he).resolve_left (by simp)⟩
  | @error e q he hr hq =>
      refine ⟨⟨h.ready, fun bs hbs => h.chunks bs (hrest hq _ hbs), fun hend => ?_⟩,
        rfl, rfl, rfl, fun _ => .inl ⟨e, rfl⟩⟩
      cases he.symm.trans hend
  | closed he hr hq h0 => exact ⟨⟨h.ready, h.chunks, fun _ => ⟨hr, hq, h0⟩⟩, rfl, rfl, rfl, .inr⟩
  | waits he hr hq h0 => exact ⟨⟨h.ready, h.chunks, h.ended⟩, rfl, rfl, rfl, .inr⟩

/-- The end of the body is shown where the channel is closed, and nothing is held. -/
theorem pollBodyData_end {t : In} (h : Fits recv body)
    (hx : pollBodyData cx (n + 1) (recv, body) = (.ready [], t)) :
    body.senders = 0 ∧ body.queue = [] ∧ recv.ready = none := by
  have hs := wp_elim pollBodyData_ships hx
  have htake : ∀ {bs : Bytes}, bs ≠ [] → bs.take (n + 1) ≠ [] := fun hne hnil =>
    (List.take_eq_nil_iff.mp hnil).elim (Nat.succ_ne_zero n) hne
  generalize ho : (Outcome.ready [] : Outcome IoError Bytes) = o at hs
  cases hs with
  | ended he => exact ⟨(h.ended he).2.2, (h.ended he).2.1, (h.ended he).1⟩
  | ready he hr hrest => exact absurd (Outcome.ready.inj ho).symm (htake (h.ready _ hr))
  | chunk he hr hq hrest =>
      refine absurd (Outcome.ready.inj ho).symm (htake (h.chunks _ ?_))
      rw [hq]
      exact List.mem_cons_self
  | error he hr hq => cases ho
  | closed he hr hq h0 => exact ⟨h0, hq, hr⟩
  | waits he hr hq h0 => cases ho

/-- The bytes a read returns. -/
def shownBytes : Outcome IoError Bytes → Bytes
  | .ready bs => bs
  | _ => []

/-- A read takes the bytes it returns off the front of what is held. -/
theorem pollBodyData_held : wp (pollBodyData cx n) (fun o t =>
    shownBytes o ++ t.1.held t.2 = recv.held body ∧ t.2.sent = body.sent) (recv, body) := by
  refine pollBodyData_ships.mono fun o t hs => ?_
  cases hs with
  | ended he => exact ⟨rfl, rfl⟩
  | @ready ready rest he hr hrest =>
      refine ⟨?_, rfl⟩
      rw [shownBytes, held, readyBytes_shipped, hrest, ← List.append_assoc, List.take_append_drop,
        held, readyBytes, hr]
  | @chunk bs rest q he hr hq hrest =>
      refine ⟨?_, rfl⟩
      rw [shownBytes, held, readyBytes_shipped, hrest, ← List.append_assoc, List.take_append_drop,
        held, readyBytes, hr, hq]
      rfl
  | error he hr hq =>
      refine ⟨?_, rfl⟩
      rw [held, held, hq]
      rfl
  | closed he hr hq h0 => exact ⟨rfl, rfl⟩
  | waits he hr hq h0 => exact ⟨rfl, rfl⟩

/-- There is nothing left of a channel that is closed. -/
theorem pollBodyData_nil (hr : recv.ready = none) (hq : body.queue = []) (h0 : body.senders = 0) :
    (pollBodyData cx n (recv, body)).1 = .ready [] := by
  have hs : Ships cx n recv body (pollBodyData cx n (recv, body)).1
      (pollBodyData cx n (recv, body)).2 := pollBodyData_ships
  generalize (pollBodyData cx n (recv, body)).1 = o at hs
  generalize (pollBodyData cx n (recv, body)).2 = t at hs
  cases hs with
  | ended he => rfl
  | ready he hr' hrest => cases hr.symm.trans hr'
  | chunk he hr' hq' hrest => cases hq.symm.trans hq'
  | error he hr' hq' => cases hq.symm.trans hq'
  | closed he hr' hq' h0' => rfl
  | waits he hr' hq' h0' => exact absurd h0 h0'

/-! ### What has been put on the channel -/

/-- The bytes that have been put on the channel of a body. -/
def sentBytes (body : Chan (Except IoError Bytes)) : Bytes :=
  (body.sent.filterMap Except.toOption).flatten

theorem sentBytes_concat {item : Except IoError Bytes} (h : body'.sent = body.sent ++ [item]) :
    sentBytes body' = sentBytes body ++ itemBytes item := by
  rw [sentBytes, sentBytes, h, List.filterMap_append, List.flatten_append]
  cases item with
  | ok bs => simp [itemBytes, Except.toOption]
  | error e => simp [itemBytes, Except.toOption]

theorem receivers_offer {α : Type} {b : Chan α} (x : α) : (b.offer x).receivers = b.receivers := by
  rw [Chan.offer]
  split
  · rfl
  · exact Chan.receivers_enqueue x

theorem ended_offer {item : Except IoError Bytes} (h : body.ended = true → body.receivers = 0)
    (he : (body.offer item).ended = true) : (body.offer item).receivers = 0 := by
  rw [receivers_offer]
  rw [Chan.offer] at he
  split at he
  · next h0 => exact h0
  · exact h (by rw [Chan.ended_enqueue] at he; exact he)

/-- What is put on a channel with a receiver comes after what has been. -/
theorem sentBytes_offer {item : Except IoError Bytes} (h : body.ended = true → body.receivers = 0)
    (h0 : body.receivers ≠ 0) : sentBytes (body.offer item) = sentBytes body ++ itemBytes item := by
  rw [Chan.offer, if_neg h0]
  exact sentBytes_concat (Chan.sent_enqueue item (Bool.eq_false_iff.mpr fun he => h0 (h he)))

theorem sentBytes_offer_error (e : IoError) : sentBytes (body.offer (.error e)) = sentBytes body := by
  rw [Chan.offer]
  split
  · rfl
  · rw [Chan.enqueue]
    split
    · rfl
    · have hnone : itemBytes (.error e) = [] := rfl
      rw [sentBytes_concat rfl, hnone, List.append_nil]

/-- What has been read, and what is held, is all that has been put on the channel. -/
def Shown (out : Bytes) (recv : RecvStream) (body : Chan (Except IoError Bytes)) : Prop :=
  out ++ recv.held body = sentBytes body

section Shown
variable {out : Bytes}

/-- Only wakers and senders have come and gone. -/
theorem Shown.congr (h : Shown out recv body) (hq : body'.queue = body.queue)
    (hs : body'.sent = body.sent) : Shown out recv body' := by
  rw [Shown, held, sentBytes, hq, hs]
  exact h

/-- What is put on the channel is held. -/
theorem Shown.offer (h : Shown out recv body) (he : body.ended = true → body.receivers = 0)
    (h0 : body.receivers ≠ 0) (item : Except IoError Bytes) : Shown out recv (body.offer item) := by
  have he' : body.ended = false := Bool.eq_false_iff.mpr fun hend => h0 (he hend)
  rw [Shown, sentBytes_offer he h0, ← h, Chan.offer, if_neg h0, held, held,
    Chan.queue_enqueue _ he', List.flatMap_append, List.flatMap_singleton, List.append_assoc,
    List.append_assoc]

/-- A read shows the front of what is held. -/
theorem Shown.read {o : Outcome IoError Bytes} {t : In} (h : Shown out recv body)
    (hx : pollBodyData cx n (recv, body) = (o, t)) : Shown (out ++ shownBytes o) t.1 t.2 := by
  obtain ⟨hheld, hsent⟩ := wp_elim pollBodyData_held hx
  rw [Shown, sentBytes, hsent, ← sentBytes, ← h, ← hheld, List.append_assoc]

end Shown

/-- The receiver's end of a channel, and its wakers, are all that has changed. -/
structure Drains {α : Type} (b b' : Chan α) : Prop where
  sent : b'.sent = b.sent
  receivers : b'.receivers ≠ 0 → b.receivers ≠ 0
  ended : (b.ended = true → b.receivers = 0) → b'.ended = true → b'.receivers = 0

section Drains
variable {α : Type} {b b' b'' : Chan α}

theorem Drains.refl (b : Chan α) : Drains b b := ⟨rfl, id, id⟩

theorem Drains.trans (h : Drains b b') (h' : Drains b' b'') : Drains b b'' :=
  ⟨h'.sent.trans h.sent, h.receivers ∘ h'.receivers, h'.ended ∘ h.ended⟩

theorem drains_quiet (h : b.Quiet b') : Drains b b' :=
  ⟨h.sent, fun h' => h.receivers ▸ h', fun h' he => h.receivers.trans (h' (h.ended.symm.trans he))⟩

theorem drains_dropSender : Drains b b.dropSender :=
  ⟨Chan.sent_dropSender, fun h => Chan.receivers_dropSender (c := b) ▸ h, fun h he => by
    rw [Chan.receivers_dropSender]
    exact h (Chan.ended_dropSender (c := b) ▸ he)⟩

theorem drains_dropReceiver : Drains b b.dropReceiver where
  sent := Chan.dropReceiver_sent
  receivers := fun h h0 => h (by rw [Chan.receivers_dropReceiver, h0])
  ended := Chan.dropReceiver_dead

theorem drains_pollBodyData {o : Outcome IoError Bytes} {t : In} (h : Fits recv body)
    (hx : pollBodyData cx n (recv, body) = (o, t)) : Drains body t.2 := by
  have hr := wp_elim (pollBodyData_reads h) hx
  refine ⟨(wp_elim pollBodyData_held hx).2, fun h => hr.receivers ▸ h, fun h he => ?_⟩
  rw [hr.receivers]
  exact h (hr.ended ▸ he)

theorem Drains.sentBytes {body body' : Chan (Except IoError Bytes)} (h : Drains body body') :
    sentBytes body' = sentBytes body := by
  rw [RecvStream.sentBytes, RecvStream.sentBytes, h.sent]

end Drains

end HreqH1.RecvStream
