import HreqH1.Client.Queued
import HreqH1.Link.Bodies

/-!
# Link — what the client is given

`gaveFor as w`: the calls of `send_data` in a run of the client that are accepted, for each request.
`Given` says that the items of a request's channel are those of its calls, as `Carries` has it; every
step keeps it, whatever the codec takes or gives up of the channel, and so does a run (`given_after`).
-/

namespace HreqH1.Link
open PollM Runs SendStream Client RecvStream

/-! ### What the codec does of a body -/

theorem drains_takes {α : Type} {b b' : Chan α} {x : α} (h : b.Takes x b') : Drains b b' :=
  ⟨h.sent, fun h' => h.receivers ▸ h', fun h' he => h.receivers.trans (h' (h.ended.symm.trans he))⟩

theorem drains_afterItem {rx : Chan (Bytes × Bool)} (fin : Bool) : Drains rx (afterItem fin rx) := by
  cases fin with
  | true => exact drains_dropReceiver
  | false => exact .refl _

/-- The bodies of requests are drained, at most. -/
def Draining (c c' : Conn) : Prop := ∀ k, Drains (c.reqBody k) (c'.reqBody k)

section Draining
variable {c c' c'' : Conn}

theorem Draining.refl (c : Conn) : Draining c c := fun _ => .refl _

theorem Draining.trans (h : Draining c c') (h' : Draining c' c'') : Draining c c'' := fun k =>
  (h k).trans (h' k)

theorem draining_of_eq (h : c'.reqBody = c.reqBody) : Draining c c' := fun k => by
  rw [h]
  exact .refl _

theorem draining_at {i : Nat} {b : Chan (Bytes × Bool)} (h : Drains (c.reqBody i) b)
    (heq : c'.reqBody = atId c.reqBody i fun _ => b) : Draining c c' := fun k => by
  rw [heq]
  exact drains_atId (f := fun _ => b) h k

theorem draining_dropHandle (h : Handle) (c : Conn) : Draining c (c.dropHandle h) := by
  rw [Conn.dropHandle]
  cases h.bodyRx with
  | none => exact .refl c
  | some i => exact draining_at (i := i) drains_dropReceiver rfl

theorem draining_dropHandles (q : List Handle) (c : Conn) :
    Draining c (q.foldl (fun w h => w.dropHandle h) c) := by
  induction q generalizing c with
  | nil => exact .refl c
  | cons h q ih => exact (draining_dropHandle h c).trans (ih _)

theorem draining_dropConn (c : Conn) : Draining c (dropConn c) := by
  have hq : ∀ {c₁ : Conn}, Draining c c₁ →
      Draining c { c₁.reqRx.queue.foldl (fun w h => w.dropHandle h) c₁ with
        reqRx := (c₁.reqRx.queue.foldl (fun w h => w.dropHandle h) c₁).reqRx.dropReceiver } :=
    fun h => h.trans (draining_dropHandles _ _)
  rw [dropConn]
  refine hq ?_
  cases c.state with
  | sendReq => exact .refl c
  | recvBody b => exact .refl c
  | recvRes b =>
      dsimp only
      cases b.holder with
      | none => exact draining_dropHandle b.handle c
      | some p => exact draining_dropHandle b.handle c

theorem draining_dropFuture (i : Nat) (w : World) : Draining w.conn (dropFuture i w).conn := by
  obtain ⟨rb, heq⟩ := dropFuture_conn i w
  exact draining_of_eq (by rw [heq])

variable [Crates]

theorem draining_move (h : Move c c') : Draining c c' := by
  cases h with
  | wake hq => exact draining_at (drains_quiet hq) rfl
  | @item h i bs fin rx io hs hi ht hw hio =>
      exact draining_at ((drains_takes ht).trans (drains_afterItem fin)) rfl
  | _ => exact .refl _

theorem draining_stop {r : Halt IoError} (h : Stop r c c') : Draining c c' := by
  cases h with
  | @requestFailed _ handle rx io front e hs ht hw hio why =>
      exact draining_dropHandle handle { c with io := io, reqRx := rx }
  | @requestPanic _ handle rx hs ht why => exact draining_dropHandle handle { c with reqRx := rx }
  | headPendingSent hs hi ht hr hw hio =>
      exact draining_at ((drains_takes ht).trans (drains_afterItem true)) rfl
  | noItem hs hi hr hq hn => exact draining_at (drains_quiet hr) rfl
  | @itemFailed _ h i bs front fin rx io e hs hi ht hw hio why =>
      exact draining_at ((drains_takes ht).trans (drains_afterItem fin)) rfl
  | _ => exact .refl _

theorem draining_poll {r : Outcome IoError Unit} (h : ClientPost c r c') : Draining c c' := by
  refine h.keeps (I := Draining c) (fun _ _ hm hc => hc.trans (draining_move hm))
    (fun _ _ _ hs hc => hc.trans (draining_stop hs)) (fun e c₁ hc => ?_) (.refl c)
  obtain ⟨res, resBody, heq⟩ := tryForwardError_keeps e c₁
  exact hc.trans (draining_of_eq (by rw [heq]))

end Draining

/-! ### What the user does of it -/

/-- A message with a body, or none, and what has been given for it. -/
structure Entrusted (h : Handle) (gave : List (Bytes × Bool)) (b : Chan (Bytes × Bool))
    (send : Option SendStream) : Prop where
  short : ∀ x ∈ gave, x.1.length < 16 ^ 10
  announced : h.bodyRx ≠ none → (LimitWrite.fromHeaders h.req.headers).isNoBody = false
  loaded : h.bodyRx ≠ none → Loaded (isChunked h.req.headers) gave b
  gives : h.bodyRx ≠ none → ∀ s, send = some s → Gives (isChunked h.req.headers) gave s
  bodiless : h.bodyRx = none → ∀ x ∈ gave, x.1 = []
  stopped : h.bodyRx = none → ∀ s, send = some s → s.ended = true

section Entrusted
variable {h : Handle} {gave : List (Bytes × Bool)} {b b' : Chan (Bytes × Bool)}
  {send send' : Option SendStream} {s s' : SendStream}

/-- The other end of the channel does not matter, and a stream may be dropped. -/
theorem Entrusted.drains (he : Entrusted h gave b send) (hb : Drains b b')
    (hs : ∀ s, send' = some s → send = some s) : Entrusted h gave b' send' where
  short := he.short
  announced := he.announced
  loaded := fun hn => (he.loaded hn).drains hb
  gives := fun hn s h => he.gives hn s (hs s h)
  bodiless := he.bodiless
  stopped := fun hn s h => he.stopped hn s (hs s h)

/-- A request is new. -/
theorem entrusted_new {i : Nat} {req : Request} {noBody noSendBody : Bool}
    (hn : noSendBody = (noBody || (LimitWrite.fromHeaders req.headers).isNoBody)) :
    Entrusted (newHandle i req noSendBody) [] (if noSendBody then (Chan.new 1).dropReceiver else .new 1)
      (some ⟨LimitWrite.fromHeaders req.headers, noSendBody, false⟩) := by
  have hnil : ∀ x ∈ ([] : List (Bytes × Bool)), x.1.length < 16 ^ 10 := fun x hx => (by cases hx)
  cases noSendBody with
  | true =>
      refine ⟨hnil, fun h => absurd rfl h, fun h => absurd rfl h, fun h => absurd rfl h,
        fun _ x hx => (by cases hx), ?_⟩
      rintro - s ⟨⟩
      rfl
  | false =>
      have hno := (Bool.or_eq_false_iff.mp hn.symm).2
      refine ⟨hnil, fun _ => hno, fun _ => ⟨carries_nil, by intros; contradiction⟩, ?_,
        fun h => (by cases h), fun h => (by cases h)⟩
      rintro - s ⟨⟩
      exact ⟨limit_kind hno, by intros; contradiction⟩

variable [VecAlloc] {cx : Waker} {bs : Bytes} {fin owned : Bool} {o : Outcome Error Unit}

/-- A call for the body. -/
theorem Entrusted.call (he : Entrusted h gave b (some s)) (hlt : bs.length < 16 ^ 10)
    (hx : pollSendData cx (dataOf owned bs) fin (s, b) = (o, (s', b'))) :
    Entrusted h (gaveAfter gave bs fin o) b' (some s') := by
  have hshort : ∀ x ∈ gaveAfter gave bs fin o, x.1.length < 16 ^ 10 := short_gaveAfter he.short hlt
  by_cases hn : h.bodyRx = none
  · obtain ⟨hnil, rfl, rfl⟩ := call_stopped (he.stopped hn s rfl) (he.bodiless hn) hx
    exact ⟨hshort, fun h => absurd hn h, fun h => absurd hn h, fun h => absurd hn h, fun _ => hnil,
      he.stopped⟩
  · obtain ⟨hg, hl⟩ := (he.gives hn s rfl).call (he.loaded hn) hlt hx
    refine ⟨hshort, he.announced, fun _ => hl, ?_, fun h => absurd h hn, fun h => absurd h hn⟩
    rintro - s ⟨⟩
    exact hg

end Entrusted

/-! ### Runs -/

/-- The data of a call is shorter than `16 ^ 10` bytes. -/
def ShortCall : Client.Action → Prop
  | .sendData _ _ _ bs _ => bs.length < 16 ^ 10
  | _ => True

/-- What a step gives for the bodies of requests. -/
def noteCall (gave : Nat → List (Bytes × Bool)) (a : Client.Action) (o : Client.Obs) (_ : World) :
    Nat → List (Bytes × Bool) :=
  match a, o with
  | .sendData i _ _ bs fin, .pushed _ r => Function.update gave i (gaveAfter (gave i) bs fin r)
  | _, _ => gave

/-- The items of the channels are those of what has been given. -/
structure Given (gave : Nat → List (Bytes × Bool)) (w : World) : Prop where
  sound : w.conn.io.Sound
  ended : w.conn.reqRx.ended = true → w.conn.reqRx.receivers = 0
  issued : w.conn.reqRx.sent.length = w.issued
  each : ∀ k h, w.conn.reqRx.sent[k]? = some h → Entrusted h (gave k) (w.conn.reqBody k) (w.send k)
  fresh : ∀ k, w.issued ≤ k → gave k = [] ∧ w.send k = none

section Given
variable {gave : Nat → List (Bytes × Bool)} {w w' : World}

/-- Nothing is given. -/
theorem Given.beside (h : Given gave w) (hsound : w'.conn.io.Sound)
    (hr : SameRequests w.conn.reqRx w'.conn.reqRx) (hn : w'.issued = w.issued)
    (hd : Draining w.conn w'.conn) (hs : ∀ k s, w'.send k = some s → w.send k = some s) :
    Given gave w' where
  sound := hsound
  ended := by
    rw [hr.ended, hr.receivers]
    exact h.ended
  issued := by rw [hr.sent, hn, h.issued]
  each := fun k x hx => (h.each k x (hr.sent ▸ hx)).drains (hd k) (hs k)
  fresh := fun k hk => by
    refine ⟨(h.fresh k (hn ▸ hk)).1, Option.eq_none_iff_forall_ne_some.mpr fun s hsome => ?_⟩
    cases (h.fresh k (hn ▸ hk)).2.symm.trans (hs k s hsome)

/-- A request is sent. -/
theorem Given.request {req : Request} {noBody noSendBody : Bool} {send : SendStream}
    (h : Given gave w) (hr : w.conn.reqRx.receivers ≠ 0)
    (hb : noSendBody = (noBody || (LimitWrite.fromHeaders req.headers).isNoBody))
    (hs : send = ⟨LimitWrite.fromHeaders req.headers, noSendBody, false⟩)
    (hc : w'.conn = enqueued w.issued req noSendBody w.conn) (hn : w'.issued = w.issued + 1)
    (hsend : w'.send = Function.update w.send w.issued (some send)) : Given gave w' := by
  have he : w.conn.reqRx.ended = false := Bool.eq_false_iff.mpr fun he => hr (h.ended he)
  have hsent : w'.conn.reqRx.sent = w.conn.reqRx.sent ++ [newHandle w.issued req noSendBody] := by
    rw [hc]
    exact Chan.sent_enqueue _ he
  have hbody : w'.conn.reqBody = atId w.conn.reqBody w.issued fun _ =>
      if noSendBody then (Chan.new 1).dropReceiver else .new 1 := by
    rw [hc]
    rfl
  refine ⟨?_, fun hend => ?_, ?_, fun k x hx => ?_, fun k hk => ?_⟩
  · rw [hc]
    exact h.sound
  · rw [hc] at hend
    cases he.symm.trans ((Chan.ended_enqueue _).symm.trans hend)
  · rw [hsent, List.length_append, h.issued, hn]
    rfl
  · rw [hsent] at hx
    rcases getElem?_concat_cases hx with hx | ⟨hk, rfl⟩
    · have hne : k ≠ w.issued := Nat.ne_of_lt (h.issued ▸ lt_of_getElem? hx)
      rw [hbody, atId_of_ne hne, hsend, Function.update_of_ne hne]
      exact h.each k x hx
    · obtain rfl : k = w.issued := hk.trans h.issued
      rw [hbody, atId_self, hsend, Function.update_self, (h.fresh _ (Nat.le_refl _)).1, hs]
      exact entrusted_new hb
  · rw [hn] at hk
    have hne : k ≠ w.issued := by omega
    rw [hsend, Function.update_of_ne hne]
    exact h.fresh k (Nat.le_of_succ_le hk)

variable [VecAlloc]

/-- A call of `send_data` for the `i`-th request. -/
theorem Given.call {i : Nat} {send send' : SendStream} {cx : Waker} {bs : Bytes} {fin owned : Bool}
    {o : Outcome Error Unit} {rb : Chan (Bytes × Bool)} (h : Given gave w) (hlt : bs.length < 16 ^ 10)
    (hs : w.send i = some send)
    (hx : pollSendData cx (dataOf owned bs) fin (send, w.conn.reqBody i) = (o, (send', rb))) :
    Given (Function.update gave i (gaveAfter (gave i) bs fin o))
      { w with
        conn := w.conn.onReqBody i fun _ => rb
        send := Function.update w.send i (some send') } := by
  have hi : i < w.issued := by
    by_contra hge
    cases (h.fresh i (Nat.not_lt.mp hge)).2.symm.trans hs
  refine ⟨h.sound, h.ended, h.issued, fun k x hk => ?_, fun k hk => ?_⟩
  · by_cases hki : k = i
    · subst hki
      have he := h.each k x hk
      rw [hs] at he
      dsimp only [Conn.onReqBody]
      rw [Function.update_self, Function.update_self, atId_self]
      exact he.call hlt hx
    · dsimp only [Conn.onReqBody]
      rw [Function.update_of_ne hki, Function.update_of_ne hki, atId_of_ne hki]
      exact h.each k x hk
  · have hne : k ≠ i := Nat.ne_of_gt (Nat.lt_of_lt_of_le hi hk)
    dsimp only
    rw [Function.update_of_ne hne, Function.update_of_ne hne]
    exact h.fresh k hk

variable [Crates] {a : Client.Action}

theorem given_step (h : Given gave w) (hshort : ShortCall a) :
    Given (noteCall gave a (Client.step a w).1 (Client.step a w).2) (Client.step a w).2 := by
  have hsame : ∀ {c : Conn}, c.reqRx = w.conn.reqRx → SameRequests w.conn.reqRx c.reqRx := fun heq => by
    rw [heq]
    exact .refl _
  have hdropFuture : ∀ {i : Nat} {w₁ : World}, w₁.conn.io.Sound → w₁.conn.reqRx = w.conn.reqRx →
      w₁.conn.reqBody = w.conn.reqBody → w₁.issued = w.issued → w₁.send = w.send →
      Given gave (Client.dropFuture i w₁) := by
    intro i w₁ hsound hr hb hn hsend
    obtain ⟨rb, heq⟩ := dropFuture_conn i w₁
    refine h.beside ?_ (hsame ?_) hn (draining_of_eq ?_) fun k s hs => hsend ▸ hs
    · rw [heq]
      exact hsound
    · rw [heq]
      exact hr
    · rw [heq]
      exact hb
  have ha := step_acts a w
  generalize (Client.step a w).1 = o at ha
  generalize (Client.step a w).2 = w' at ha ⊢
  cases ha with
  | idle => cases a <;> exact h
  | refused hr => exact h
  | request hm hs hr hl hb =>
      subst hl
      exact h.request hr hb rfl rfl rfl rfl
  | cloned hs => exact h.beside h.sound ⟨rfl, rfl, rfl⟩ rfl (.refl _) fun _ _ => id
  | dropRequest hs =>
      exact h.beside h.sound ⟨Chan.sent_dropSender, Chan.ended_dropSender, Chan.receivers_dropSender⟩
        rfl (.refl _) fun _ _ => id
  | @poll cx r c hp hx =>
      have hpost := wp_elim (pollClient_moves h.sound) hx
      have hsound : (pollClient cx w.conn).2.io.Sound := pollClient_sound h.sound
      rw [hx] at hsound
      exact h.beside hsound hpost.requests rfl (draining_poll hpost) fun _ _ => id
  | dropConn hp =>
      have hd := (sent_dropConn w.conn).1
      refine ⟨?_, ?_, ?_, fun k x hx => ?_, h.fresh⟩
      · rw [(sameCodec_dropConn w.conn).io]
        exact h.sound
      · rw [hd]
        exact Chan.dropReceiver_dead h.ended
      · rw [hd, Chan.dropReceiver_sent]
        exact h.issued
      · rw [hd, Chan.dropReceiver_sent] at hx
        exact (h.each k x hx).drains (draining_dropConn w.conn k) fun _ => id
  | wait hf hq hn => exact h.beside h.sound (hsame rfl) rfl (.refl _) fun _ _ => id
  | resolve hf hq => exact hdropFuture h.sound rfl rfl rfl rfl
  | unanswered hf hq hn => exact hdropFuture h.sound rfl rfl rfl rfl
  | dropFuture hf => exact hdropFuture h.sound rfl rfl rfl rfl
  | read hr hp => exact h.beside h.sound (hsame rfl) rfl (.refl _) fun _ _ => id
  | dropRecv hr => exact h.beside h.sound (hsame rfl) rfl (.refl _) fun _ _ => id
  | sendData hs hp => exact h.call hshort hs hp
  | @dropSend i send hs =>
      refine h.beside h.sound (hsame rfl) rfl (draining_at (i := i) drains_dropSender rfl) fun k s hk => ?_
      by_cases hki : k = i
      · subst hki
        dsimp only at hk
        rw [Function.update_self] at hk
        cases hk
      · dsimp only at hk
        rw [Function.update_of_ne hki] at hk
        exact hk

omit [VecAlloc] [Crates] in
theorem given_handshake (inner : Transport) : Given (fun _ => []) (Client.handshake inner) where
  sound := BufIo.sound_withCapacity (by decide) inner
  ended := by intros; contradiction
  issued := rfl
  each := fun _ _ hk => absurd hk getElem?_nil_ne
  fresh := fun _ _ => ⟨rfl, rfl⟩

/-- What has been given in a run, for each request. -/
def gaveFor (as : List Client.Action) (w : World) : Nat → List (Bytes × Bool) :=
  record Client.step noteCall as (fun _ => []) w

/-- **What is on the channels** of the bodies is what has been given. -/
theorem given_after (inner : Transport) {as : List Client.Action} (hshort : ∀ a ∈ as, ShortCall a) :
    Given (gaveFor as (Client.handshake inner)) (Runs.after Client.step as (Client.handshake inner)) :=
  have hstep : ∀ (gave : Nat → List (Bytes × Bool)) (w : World) (a : Client.Action), Given gave w →
      ShortCall a → Given (noteCall gave a (Client.step a w).1 (Client.step a w).2)
        (Client.step a w).2 := fun _ _ _ h hs => given_step h hs
  run_record (I := Given) hstep (along_of_forall hshort _) (given_handshake inner)

end Given

end HreqH1.Link
