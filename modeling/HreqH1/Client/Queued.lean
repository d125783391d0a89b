import HreqH1.Concurrent.Stranded

/-!
# Client — requests in the queue

The queue has the requests in the order of their numbers, up to the last that was sent, and until the
codec takes one nothing is sent to its `ResponseFuture`: `Lined k n c` for the requests from `k` up to
`n`.  Every move of the codec keeps it for some `k` (`Move.lined`), and so does a run (`run_lined`).
-/

namespace HreqH1.Client
open PollM Runs BufIo

/-- The requests in the queue are those from `k` on, of `n`, and nothing has been sent to them. -/
structure Lined (k n : Nat) (c : Conn) : Prop where
  numbers : ∀ j h, c.reqRx.queue[j]? = some h → h.resTx = some (k + j)
  length : k + c.reqRx.queue.length = n
  untold : ∀ i, k ≤ i → (c.res i).queue = []
  one : ∀ i, (c.res i).senders ≤ 1
  state : ∀ b i, c.state = .recvRes b → b.handle.resTx = some i → i < k
  ended : c.reqRx.ended = true → c.reqRx.receivers = 0

/-- Nothing is sent to a response, and no sender comes back. -/
structure Hushed (c c' : Conn) : Prop where
  queue : ∀ i, (c.res i).queue = [] → (c'.res i).queue = []
  senders : ∀ i, (c'.res i).senders ≤ (c.res i).senders

section Hushed
variable {c c' c'' : Conn}

theorem Hushed.refl (c : Conn) : Hushed c c := ⟨fun _ => id, fun _ => Nat.le_refl _⟩

theorem Hushed.trans (h : Hushed c c') (h' : Hushed c' c'') : Hushed c c'' :=
  ⟨fun i hi => h'.queue i (h.queue i hi), fun i => Nat.le_trans (h'.senders i) (h.senders i)⟩

theorem Hushed.of_res (h : c'.res = c.res) : Hushed c c' :=
  ⟨fun i hi => by rw [h]; exact hi, fun i => Nat.le_of_eq (by rw [h])⟩

theorem Hushed.of_atId {i : Nat} {f : Chan Answer → Chan Answer} (h : c'.res = atId c.res i f)
    (hq : (c.res i).queue = [] → (f (c.res i)).queue = [])
    (hs : (f (c.res i)).senders ≤ (c.res i).senders) : Hushed c c' := by
  refine ⟨fun j hj => ?_, fun j => ?_⟩
  · by_cases hji : j = i
    · subst hji
      rw [h, atId_self]
      exact hq hj
    · rw [h, atId_of_ne hji]
      exact hj
  · by_cases hji : j = i
    · subst hji
      rw [h, atId_self]
      exact hs
    · exact Nat.le_of_eq (by rw [h, atId_of_ne hji])

theorem queue_dropReceiver_nil {α : Type} {c : Chan α} (h : c.queue = []) :
    c.dropReceiver.queue = [] := by
  rw [Chan.dropReceiver]
  split
  · rfl
  · exact h

theorem hushed_dropHandle (h : Handle) (c : Conn) : Hushed c (c.dropHandle h) := by
  rw [Conn.dropHandle]
  cases h.resTx with
  | none => exact .of_res rfl
  | some i =>
      refine .of_atId (i := i) (f := Chan.dropSender) rfl (fun h => Chan.queue_dropSender.trans h) ?_
      rw [Chan.senders_dropSender]
      exact Nat.sub_le _ _

theorem hushed_dropHandles (q : List Handle) (c : Conn) :
    Hushed c (q.foldl (fun w h => w.dropHandle h) c) := by
  induction q generalizing c with
  | nil => exact .refl c
  | cons h q ih => exact (hushed_dropHandle h c).trans (ih _)

theorem hushed_dropConn (c : Conn) : Hushed c (dropConn c) := by
  have hq : ∀ {c₁ : Conn}, Hushed c c₁ →
      Hushed c { c₁.reqRx.queue.foldl (fun w h => w.dropHandle h) c₁ with
        reqRx := (c₁.reqRx.queue.foldl (fun w h => w.dropHandle h) c₁).reqRx.dropReceiver } :=
    fun h => h.trans ((hushed_dropHandles _ _).trans (.of_res rfl))
  rw [dropConn]
  refine hq ?_
  cases c.state with
  | sendReq => exact .refl c
  | recvBody b => exact .of_res rfl
  | recvRes b =>
      dsimp only
      cases b.holder with
      | none => exact hushed_dropHandle b.handle c
      | some p => exact (hushed_dropHandle b.handle c).trans (.of_res rfl)

theorem hushed_dropFuture (i : Nat) (w : World) : Hushed w.conn (dropFuture i w).conn := by
  obtain ⟨rb, heq⟩ := dropFuture_conn i w
  rw [heq]
  exact .of_atId (i := i) (f := Chan.dropReceiver) rfl queue_dropReceiver_nil
    (Nat.le_of_eq Chan.senders_dropReceiver)

variable [VecAlloc] [Crates]

/-- What the user does with the handles of requests. -/
theorem hushed_step {a : Action} (ha : Requests.onHandle a = true) (w : World) :
    Hushed w.conn (step a w).2.conn := by
  have hacts := step_acts a w
  generalize (step a w).1 = o at hacts
  generalize (step a w).2 = w' at hacts ⊢
  cases hacts with
  | idle => exact .refl _
  | @wait i cx hf hq hn => exact .of_atId (i := i) (f := fun c => c.register cx) rfl id (Nat.le_refl _)
  | @resolve i cx a q hf hq =>
      refine .trans ?_ (hushed_dropFuture i _)
      refine .of_atId (i := i) (f := fun c => { c with queue := q }.wakeAll) rfl (fun h => ?_)
        (Nat.le_refl _)
      cases hq.symm.trans h
  | @unanswered i cx hf hq hn =>
      refine .trans ?_ (hushed_dropFuture i _)
      exact .of_atId (i := i) (f := fun c => c.register cx) rfl id (Nat.le_refl _)
  | dropFuture hf => exact hushed_dropFuture _ w
  | read hr hp => exact .of_res rfl
  | dropRecv hr => exact .of_res rfl
  | sendData hs hp => exact .of_res rfl
  | dropSend hs => exact .of_res rfl
  | _ => cases ha

end Hushed

/-! ### Moves -/

section Moves
variable {k n : Nat} {c c' : Conn}

/-- The queue has not changed, and what has been sent is sent to the request at hand. -/
theorem Lined.same (h : Lined k n c) (hq : c'.reqRx.queue = c.reqRx.queue)
    (he : c'.reqRx.ended = true → c'.reqRx.receivers = 0)
    (hu : ∀ i, k ≤ i → (c.res i).queue = [] → (c'.res i).queue = [])
    (h1 : ∀ i, (c'.res i).senders ≤ (c.res i).senders)
    (hs : ∀ b i, c'.state = .recvRes b → b.handle.resTx = some i → i < k) : Lined k n c' where
  numbers := hq ▸ h.numbers
  length := hq ▸ h.length
  untold := fun i hi => hu i hi (h.untold i hi)
  one := fun i => Nat.le_trans (h1 i) (h.one i)
  state := hs
  ended := he

/-- Nothing is sent at all. -/
theorem Lined.hushed (h : Lined k n c) (hh : Hushed c c') (hq : c'.reqRx.queue = c.reqRx.queue)
    (he : c'.reqRx.ended = true → c'.reqRx.receivers = 0)
    (hs : ∀ b i, c'.state = .recvRes b → b.handle.resTx = some i → i < k) : Lined k n c' :=
  h.same hq he (fun i _ => hh.queue i) hh.senders hs

/-- The request in front is taken. -/
theorem Lined.takes {handle : Handle} {rx : Chan Handle} (h : Lined k n c)
    (ht : c.reqRx.Takes handle rx) (hh : Hushed c c') (hq : c'.reqRx = rx)
    (hs : ∀ b i, c'.state = .recvRes b → b.handle.resTx = some i → i < k ∨ handle.resTx = some i) :
    Lined (k + 1) n c' := by
  have hk : handle.resTx = some k := h.numbers 0 handle (by rw [ht.queue]; rfl)
  refine ⟨fun j x hx => ?_, ?_, fun i hi => hh.queue i (h.untold i (Nat.le_of_succ_le hi)),
    fun i => Nat.le_trans (hh.senders i) (h.one i), fun b i hb hi => ?_, fun he => ?_⟩
  · rw [hq] at hx
    rw [h.numbers (j + 1) x (by rw [ht.queue]; exact hx), Nat.add_assoc, Nat.add_comm 1 j]
  · have hlen := h.length
    rw [ht.queue, List.length_cons] at hlen
    rw [hq, ← hlen, Nat.add_assoc, Nat.add_comm 1]
  · rcases hs b i hb hi with hlt | hi
    · exact Nat.lt_succ_of_lt hlt
    · obtain rfl := Option.some.inj (hk.symm.trans hi)
      exact Nat.lt_succ_self k
  · rw [hq] at he ⊢
    rw [ht.receivers]
    exact h.ended (ht.ended.symm.trans he)

/-- A request is sent. -/
theorem Lined.enqueued {req : Request} {noSendBody : Bool} (h : Lined k n c)
    (hr : c.reqRx.receivers ≠ 0) : Lined k (n + 1) (Client.enqueued n req noSendBody c) := by
  have he : c.reqRx.ended = false := Bool.eq_false_iff.mpr fun he => hr (h.ended he)
  have hq : (Client.enqueued n req noSendBody c).reqRx.queue =
      c.reqRx.queue ++ [newHandle n req noSendBody] := Chan.queue_enqueue _ he
  refine ⟨fun j x hx => ?_, ?_, fun i hi => ?_, fun i => ?_, h.state, fun hen => ?_⟩
  · rw [hq] at hx
    rcases getElem?_concat_cases hx with hx | ⟨rfl, rfl⟩
    · exact h.numbers j x hx
    · rw [h.length]
      rfl
  · rw [hq, List.length_append, List.length_singleton, ← Nat.add_assoc, h.length]
  · show (atId c.res n (fun _ => .new 1) i).queue = []
    by_cases hin : i = n
    · subst hin
      rw [atId_self]
      rfl
    · rw [atId_of_ne hin]
      exact h.untold i hi
  · show (atId c.res n (fun _ => .new 1) i).senders ≤ 1
    by_cases hin : i = n
    · subst hin
      rw [atId_self]
      exact Nat.le_refl 1
    · rw [atId_of_ne hin]
      exact h.one i
  · have hen' : c.reqRx.ended = true := (Chan.ended_enqueue _).symm.trans hen
    rw [he] at hen'
    cases hen'

/-- The connection is dropped, and with it what is in its queue. -/
theorem Lined.dropConn (h : Lined k n c) : ∃ k', Lined k' n (dropConn c) := by
  have hh := hushed_dropConn c
  have hr := (sent_dropConn c).1
  have hs := (sameCodec_dropConn c).state
  have he : (Client.dropConn c).reqRx.ended = true → (Client.dropConn c).reqRx.receivers = 0 := by
    rw [hr]
    exact Chan.dropReceiver_dead h.ended
  have hlt : ∀ b i, (Client.dropConn c).state = .recvRes b → b.handle.resTx = some i → i < k :=
    fun b i hb => h.state b i (hs.symm.trans hb)
  by_cases h1 : c.reqRx.receivers = 1
  · have hq : (Client.dropConn c).reqRx.queue = [] := by
      rw [hr, Chan.dropReceiver, if_pos h1]
      rfl
    have hle : k ≤ n := h.length ▸ Nat.le_add_right _ _
    refine ⟨n, ?_, ?_, fun i hi => hh.queue i (h.untold i (Nat.le_trans hle hi)),
      fun i => Nat.le_trans (hh.senders i) (h.one i),
      fun b i hb hi => Nat.lt_of_lt_of_le (hlt b i hb hi) hle, he⟩
    · intro j x hx
      rw [hq] at hx
      cases hx
    · rw [hq]
      rfl
  · refine ⟨k, h.hushed hh ?_ he hlt⟩
    rw [hr, Chan.dropReceiver, if_neg h1]
    rfl

/-- The senders for their responses go with the requests in the queue. -/
theorem senders_dropConn (h1 : ∀ i, (c.res i).senders ≤ 1) {handle : Handle} {i : Nat}
    (hm : handle ∈ c.reqRx.queue) (hi : handle.resTx = some i) :
    ((dropConn c).res i).senders = 0 := by
  have hq : ∀ {c₁ : Conn}, Hushed c c₁ → c₁.reqRx = c.reqRx →
      ((c₁.reqRx.queue.foldl (fun w h => w.dropHandle h) c₁).res i).senders = 0 := by
    intro c₁ hh hr
    have hs := Requests.dropHandles_spec c₁.reqRx.queue fun j => Nat.le_trans (hh.senders j) (h1 j)
    exact hs.2.2.1 handle (hr ▸ hm) i hi
  rw [Client.dropConn]
  cases c.state with
  | sendReq => exact hq (.refl c) rfl
  | recvBody b => exact hq (.of_res rfl) rfl
  | recvRes b =>
      dsimp only
      cases b.holder with
      | none => exact hq (hushed_dropHandle b.handle c) rfl
      | some p => exact hq ((hushed_dropHandle b.handle c).trans (.of_res rfl)) rfl

variable [Crates]

theorem Move.lined (hm : Move c c') (h : Lined k n c) : ∃ k', Lined k' n c' := by
  have hstate : ∀ {b}, c.state = .recvRes b → ∀ {j fin}, ∀ b' i,
      State.recvRes (b.sent j fin) = .recvRes b' → b'.handle.resTx = some i → i < k := by
    intro b hb j fin b' i hb' hi
    cases hb'
    exact h.state b i hb hi
  have hnone : ∀ {s : State}, (∀ b, s ≠ .recvRes b) → ∀ b i, s = .recvRes b →
      b.handle.resTx = some i → i < k := fun hne b i hb => absurd hb (hne b)
  cases hm with
  | write hw ht => exact ⟨k, h.hushed (.of_res rfl) rfl h.ended h.state⟩
  | read hr => exact ⟨k, h.hushed (.of_res rfl) rfl h.ended h.state⟩
  | wake hq => exact ⟨k, h.hushed (.of_res rfl) rfl h.ended h.state⟩
  | rest hs hq =>
      refine ⟨k, h.hushed (.of_res rfl) hq.queue (fun he => ?_) h.state⟩
      exact hq.receivers.trans (h.ended (hq.ended.symm.trans he))
  | request hs ht hh hw hio =>
      refine ⟨k + 1, h.takes ht (.of_res rfl) rfl fun b i hb hi => .inr ?_⟩
      obtain rfl := State.recvRes.inj hb
      exact hi
  | @response b i io head eos res hs hi hf hp =>
      have hik := h.state b i hs hi
      refine ⟨k, h.same rfl h.ended (fun j hj hq => ?_) (fun j => ?_) fun b' j hb hj => ?_⟩
      · show (atId c.res i _ j).queue = []
        rw [atId_of_ne (Nat.ne_of_gt (Nat.lt_of_lt_of_le hik hj))]
        exact hq
      · show (atId c.res i _ j).senders ≤ _
        by_cases hji : j = i
        · subst hji
          rw [atId_self, Chan.senders_dropSender, Chan.senders_offer]
          exact Nat.sub_le _ _
        · exact Nat.le_of_eq (by rw [atId_of_ne hji])
      · obtain rfl := State.recvRes.inj hb
        cases hj
  | item hs hi ht hw hio => exact ⟨k, h.hushed (.of_res rfl) rfl h.ended (hstate hs)⟩
  | toBody hs hr hb hh => exact ⟨k, h.hushed (.of_res rfl) rfl h.ended (hnone (by simp))⟩
  | toNext hs hr hb hh hu => exact ⟨k, h.hushed (.of_res rfl) rfl h.ended (hnone (by simp))⟩
  | chunk hs hc ho hn hl hr hne => exact ⟨k, h.hushed (.of_res rfl) rfl h.ended (hnone (by simp))⟩
  | lastRead hs hc hn hl hr he => exact ⟨k, h.hushed (.of_res rfl) rfl h.ended (hnone (by simp))⟩
  | bodyEnd hs hc => exact ⟨k, h.hushed (.of_res rfl) rfl h.ended h.state⟩
  | bodyNext hs hc hm hu => exact ⟨k, h.hushed (.of_res rfl) rfl h.ended (hnone (by simp))⟩

theorem Stop.lined {r : Halt IoError} (hs : Stop r c c') (h : Lined k n c) :
    ∃ k', Lined k' n c' := by
  have hstate : ∀ {b}, c.state = .recvRes b → ∀ {j fin}, ∀ b' i,
      State.recvRes (b.sent j fin) = .recvRes b' → b'.handle.resTx = some i → i < k := by
    intro b hb j fin b' i hb' hi
    cases hb'
    exact h.state b i hb hi
  have htaken : ∀ {handle : Handle} {rx : Chan Handle} {io : BufIo}, c.state = .sendReq →
      c.reqRx.Takes handle rx →
      ∃ k', Lined k' n (Conn.dropHandle handle { c with io := io, reqRx := rx }) := by
    intro handle rx io hst ht
    have hres : Hushed c { c with io := io, reqRx := rx } := .of_res rfl
    refine ⟨k + 1, h.takes ht (hres.trans (hushed_dropHandle handle _)) rfl ?_⟩
    intro b i hb
    cases hst.symm.trans hb
  cases hs with
  | awaitRequest hs hr hq hn =>
      refine ⟨k, h.hushed (.of_res rfl) hr.queue (fun he => ?_) h.state⟩
      exact hr.receivers.trans (h.ended (hr.ended.symm.trans he))
  | requestFailed hs ht hw hio why => exact htaken hs ht
  | requestPanic hs ht why => exact htaken hs ht
  | headPendingSent hs hi ht hr hw hio =>
      exact ⟨k, h.hushed (.of_res rfl) rfl h.ended (hstate hs)⟩
  | itemFailed hs hi ht hw hio why => exact ⟨k, h.hushed (.of_res rfl) rfl h.ended (hstate hs)⟩
  | limitPending hs hc hn hl hr hw =>
      exact ⟨k, h.hushed (.of_res rfl) rfl h.ended (by intros; contradiction)⟩
  | limitFailed hs hc hl hn hr hk why =>
      exact ⟨k, h.hushed (.of_res rfl) rfl h.ended (by intros; contradiction)⟩
  | _ => exact ⟨k, h.hushed (.of_res rfl) rfl h.ended h.state⟩

omit [Crates] in
theorem lined_tryForwardError (e : IoError) (h : Lined k n c) : Lined k n (tryForwardError e c) := by
  rw [tryForwardError]
  split
  · exact h
  · next b hst =>
    split
    · next i hi =>
      have hik := h.state b i hst hi
      rw [pollRes, run_zoom, Chan.send_eq]
      refine h.same rfl h.ended (fun j hj hq => ?_) (fun j => ?_) h.state
      · show (atId c.res i _ j).queue = []
        rw [atId_of_ne (Nat.ne_of_gt (Nat.lt_of_lt_of_le hik hj))]
        exact hq
      · show (atId c.res i _ j).senders ≤ _
        by_cases hji : j = i
        · subst hji
          rw [atId_self, Chan.senders_offer]
        · exact Nat.le_of_eq (by rw [atId_of_ne hji])
    · exact h
  · exact h.hushed (.of_res rfl) rfl h.ended h.state

theorem moves_lined (hm : Moves c c') (h : Lined k n c) : ∃ k', Lined k' n c' :=
  moves_keep (I := fun c => ∃ k, Lined k n c) (fun _ _ hm hc => by
    obtain ⟨k, h⟩ := hc
    exact hm.lined h) hm ⟨k, h⟩

end Moves

/-! ### Runs -/

section Runs
variable [VecAlloc] [Crates] {k : Nat} {w : World}

/-- What a step leaves of the queue. -/
theorem step_lined (hs : w.conn.io.Sound) (h : Lined k w.issued w.conn) (a : Action) :
    ∃ k', Lined k' (step a w).2.issued (step a w).2.conn := by
  by_cases ha : Requests.onHandle a = true
  · have hb := Requests.beside_step ha w
    have hh := hushed_step ha w
    refine ⟨k, ?_⟩
    rw [hb.issued]
    exact h.hushed hh (by rw [hb.reqRx]) (by rw [hb.reqRx]; exact h.ended)
      (by rw [hb.state]; exact h.state)
  · have hacts := step_acts a w
    generalize (step a w).1 = o at hacts
    generalize (step a w).2 = w' at hacts ⊢
    cases hacts with
    | idle => exact ⟨k, h⟩
    | refused hr => exact ⟨k, h⟩
    | request hm hs hr hl hb => exact ⟨k, h.enqueued hr⟩
    | cloned hs => exact ⟨k, h.hushed (.of_res rfl) rfl h.ended h.state⟩
    | dropRequest hs =>
        refine ⟨k, h.hushed (.of_res rfl) Chan.queue_dropSender (fun he => ?_) h.state⟩
        exact Chan.receivers_dropSender.trans (h.ended (Chan.ended_dropSender.symm.trans he))
    | poll hp hx =>
        have hpost := wp_elim (pollClient_moves hs) hx
        refine ClientPost.keeps (I := fun c => ∃ k, Lined k w.issued c) (fun _ _ hm hc => ?_)
          (fun _ _ _ hst hc => ?_) (fun e c hc => ?_) hpost ⟨k, h⟩
        · obtain ⟨k, h⟩ := hc
          exact hm.lined h
        · obtain ⟨k, h⟩ := hc
          exact hst.lined h
        · obtain ⟨k, h⟩ := hc
          exact ⟨k, lined_tryForwardError e h⟩
    | dropConn hp => exact h.dropConn
    | _ => exact absurd rfl ha

theorem run_lined (inner : Transport) (as : List Action) :
    let w := Runs.after step as (handshake inner)
    w.conn.io.Sound ∧ ∃ k, Lined k w.issued w.conn :=
  Runs.run_invariant (I := fun w : World => w.conn.io.Sound ∧ ∃ k, Lined k w.issued w.conn)
    (fun w a hw _ => by
      obtain ⟨hs, k, h⟩ := hw
      exact ⟨(step_acts a w).sound hs, step_lined hs h a⟩)
    (Runs.along_true as (handshake inner))
    ⟨BufIo.sound_withCapacity (by decide) inner, 0, ⟨fun _ _ hx => absurd hx getElem?_nil_ne, rfl,
      fun _ _ => rfl, fun _ => Nat.le_refl 1, by intros; contradiction, by intros; contradiction⟩⟩

end Runs

end HreqH1.Client
