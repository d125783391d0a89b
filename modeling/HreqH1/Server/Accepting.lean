import HreqH1.Server.Steps

/-!
# Server — accepting

A poll of the codec that wants a request makes the moves of one that does not, and the request that it
is ready with is the last of them (`pollServer_accepts`).  So between two requests that are handed out
the codec receives no other.
-/

namespace HreqH1.Server
open PollM BufIo

variable [Crates]

/-- The request of the package is received. -/
def Receives (p : Package) (c c' : Conn) : Prop :=
  c.state = .recvReq ∧ p.2.1 = .new (LimitRead.fromHeaders p.1.headers false).isNoBody true ∧
    ∃ io head eos, HeadFound head eos c.io io ∧ tryParseReq head eos = .ok (some p.1) ∧
      c' = received p.1 { c with io := io }

/-- A poll of the codec: its moves, and the request that comes last. -/
def Accepts (c : Conn) : Outcome IoError (Option Package) → Conn → Prop
  | .ready (some p), c' => ∃ c₁, Moves false c c₁ ∧ Receives p c₁ c'
  | r, c' => ServerPost false c r c'

theorem Accepts.post {c c' : Conn} {r : Outcome IoError (Option Package)} (h : Accepts c r c')
    (hr : ∀ p, r ≠ .ready (some p)) : ServerPost false c r c' := by
  cases r with
  | ready package =>
      cases package with
      | none => exact h
      | some p => exact absurd rfl (hr p)
  | pending => exact h
  | fail e => exact h
  | panic m => exact h
  | diverge => exact h

variable {c c' : Conn} {cx : Waker} {want reg : Bool} [VecAlloc]

theorem pollNextReq_receives (hs : c.state = .recvReq) (h : c.io.Sound) :
    wp pollNextReq (fun r c' => match r with
      | .ready (some p, next) => Receives p c { c' with state := next }
      | .ready (none, next) => Moves false c { c' with state := next } ∧ next = .closed ∧ c'.io.Sound
      | .pending => Stop .pending c c'
      | .fail e => Stop (.fail e) c c'
      | .panic m => Stop (.panic m) c c'
      | .diverge => False) c := by
  rw [pollNextReq, wp_bind, wp_attempt, pollIo, wp_zoom]
  refine (pollForCrlfcrlf_spec h.wf).mono fun r io hio => ?_
  cases r with
  | pending =>
      obtain ⟨hr, hb, hp, hn⟩ := hio
      exact .headPending hs hr hb hp hn
  | panic m => exact .grow hs hio.1.reads hio.1.grows hio.1.msg hio.2.2
  | diverge => exact hio.elim
  | fail e =>
      obtain ⟨hr, why⟩ := hio
      dsimp only [bindPost, Except.bind]
      rw [wp_ite]
      split
      · next hk =>
        refine ⟨.single (.hangUp hs hr ?_), rfl, h.reads hr⟩
        rcases why with hc | ⟨-, heof⟩ | ⟨rfl, -⟩
        · exact .inl hc
        · exact .inr heof
        · cases hk
      · next hk => exact .headMissing hs hr why (Bool.not_eq_true _ ▸ hk)
  | ready ret =>
      obtain ⟨head, eos, rfl, hf⟩ := hio
      cases hp : tryParseReq head eos with
      | error e =>
          dsimp only [Outcome.map, bindPost, Except.bind, id]
          rw [wp_ite, if_neg (by rw [tryParseReq_error hp]; exact Bool.false_ne_true)]
          exact .headInvalid hs hf fun req h => by cases hp.symm.trans h
      | ok req =>
          cases req with
          | none => exact .headInvalid hs hf fun req h => by cases hp.symm.trans h
          | some req => exact ⟨hs, rfl, io, head, eos, hf, hp, rfl⟩

/-- Whether a request is wanted makes a difference only where one is received. -/
theorem driveRound_want (hs : c.state ≠ .recvReq) :
    driveRound cx want reg () c = driveRound cx false reg () c := by
  have hio : ∀ r c₁, (pollIo BufIo.pollFinishPendingWrite : PollM IoError Conn Unit) c = (r, c₁) →
      c₁.state = c.state := by
    intro r c₁ hx
    rw [pollIo, run_zoom] at hx
    obtain ⟨-, rfl⟩ := Prod.mk.inj hx
    rfl
  rw [driveRound, driveRound]
  rcases hx : (pollIo BufIo.pollFinishPendingWrite : PollM IoError Conn Unit) c with ⟨r, c₁⟩
  have hstate := hio r c₁ hx
  cases r with
  | ready u =>
      rw [run_bind_ready hx, run_bind_ready hx, run_get_bind, run_get_bind]
      cases hst : c₁.state with
      | recvReq => exact absurd (hstate.symm.trans hst) hs
      | sendRes h => rfl
      | sendBody h => rfl
      | closed => rfl
  | pending => rw [run_bind_pending hx, run_bind_pending hx]
  | fail e => rw [run_bind_fail hx, run_bind_fail hx]
  | panic m => rw [run_bind_panic hx, run_bind_panic hx]
  | diverge => rw [run_bind_diverge hx, run_bind_diverge hx]

/-- What a drive comes to: its moves, and the request that comes last. -/
def Drives (c : Conn) : Outcome IoError (Option Package) → Conn → Prop
  | .ready (some p), c' => ∃ c₁, Moves false c c₁ ∧ Receives p c₁ c'
  | r, c' => Ends false id c (fun package c' => c'.io.Sound ∧ Served false package c') r c'

omit [VecAlloc] in
theorem Drives.of_ends {r : Outcome IoError (Option Package)}
    (h : Ends false id c (fun package c' => c'.io.Sound ∧ Served false package c') r c') :
    Drives c r c' := by
  cases r with
  | ready package =>
      cases package with
      | none => exact h
      | some p => cases h.2.2.1
  | pending => exact h
  | fail e => exact h
  | panic m => exact h
  | diverge => exact h

omit [VecAlloc] in
theorem Drives.after {c₁ : Conn} {r : Outcome IoError (Option Package)} (hm : Moves false c c₁)
    (h : Drives c₁ r c') : Drives c r c' := by
  cases r with
  | ready package =>
      cases package with
      | none => exact ⟨hm.trans h.1, h.2⟩
      | some p => exact Exists.imp (fun _ h => ⟨hm.trans h.1, h.2⟩) h
  | pending => exact Exists.imp (fun _ h => ⟨hm.trans h.1, h.2⟩) h
  | fail e => exact Exists.imp (fun _ h => ⟨hm.trans h.1, h.2⟩) h
  | panic m => exact Exists.imp (fun _ h => ⟨hm.trans h.1, h.2⟩) h
  | diverge => exact h

theorem driveRound_accepts (h : c.io.Sound) :
    wp (driveRound cx true reg ()) (roundPost
      (fun _ c' => Moves false c c' ∧ c'.io.Sound ∧ driveWeight c' < driveWeight c) (Drives c)) c := by
  by_cases hs : c.state = .recvReq
  · rw [driveRound, wp_bind]
    refine (finishPending_moves false h).mono fun r c₁ hpost => ?_
    cases r with
    | pending => exact hpost
    | fail e => exact hpost
    | panic m => exact hpost
    | diverge => exact hpost.elim
    | ready _ =>
        obtain ⟨hm, hio, -, hstate⟩ := hpost
        dsimp only [bindPost]
        rw [wp_bind, wp_get, bindPost, hstate.trans hs]
        dsimp only
        rw [if_pos rfl, wp_bind]
        refine (pollNextReq_receives (hstate.trans hs) hio).mono fun r c₂ hn => ?_
        cases r with
        | pending => exact ⟨c₁, hm, hn⟩
        | fail e => exact ⟨c₁, hm, hn⟩
        | panic m => exact ⟨c₁, hm, hn⟩
        | diverge => exact hn.elim
        | ready item =>
            obtain ⟨package, next⟩ := item
            cases package with
            | none => exact ⟨hm.trans hn.1, hn.2.2, .inl hn.2.1⟩
            | some p => exact ⟨c₁, hm, hn⟩
  · have hsame : wp (driveRound cx false reg ()) (roundPost (fun _ c' => Moves false c c' ∧
        c'.io.Sound ∧ driveWeight c' < driveWeight c) (Drives c)) c := by
      refine (driveRound_moves h).mono fun r c₁ hpost => ?_
      cases r with
      | ready flow =>
          cases flow with
          | again u => exact hpost
          | done package => exact Drives.of_ends hpost
      | pending => exact hpost
      | fail e => exact hpost
      | panic m => exact hpost
      | diverge => exact hpost
    rw [wp, driveRound_want hs]
    exact hsame

theorem drive_accepts (h : c.io.Sound) : wp (drive cx true reg) (Drives c) c :=
  wp_moves_loop (M := Move false) (P := Drives) (I := fun _ c => c.io.Sound)
    (fun _ _ _ _ hm h => Drives.after hm h) (fun _ _ h => driveRound_accepts h) h

/-- **What an accepting poll of the codec does.** -/
theorem pollServer_accepts (h : c.io.Sound) : wp (pollServer cx true reg) (Accepts c) c := by
  have hd : wp (drive cx true reg) (Drives c) c := drive_accepts h
  rw [wp] at hd
  rw [wp, pollServer]
  rcases hx : drive cx true reg c with ⟨r, c'⟩
  rw [hx] at hd
  cases r with
  | ready package =>
      cases package with
      | none => exact ⟨hd.1, hd.2.2⟩
      | some p => exact hd
  | pending => exact hd
  | fail e =>
      obtain ⟨c₁, hm, hs⟩ := hd
      exact ⟨c₁, c', hm, hs, rfl⟩
  | panic m => exact hd
  | diverge => exact hd.elim

theorem Polls.accepts {r : Outcome IoError (Option Package)} (h : Polls true c r c')
    (hc : c.io.Sound) : Accepts c r c' := by
  obtain ⟨cx, reg, h⟩ := h
  exact wp_elim (pollServer_accepts hc) h

end HreqH1.Server
