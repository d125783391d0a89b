import HreqH1.Model.Limit
import HreqH1.Reading.ChunkedBody

/-!
# Reading — bodies by their limit

`LimitRead::poll_read` by the bytes it moves over: of whatever bytes (`pollRead_moves`), and over
the body it was made for (`pollRead_awaits`).  `Awaits l io data left` says that the limiter still
has `data` to read from the reader, and will leave `left` there.
-/

namespace HreqH1.LimitRead
open PollM BufIo

/-- A limiter and the reader it polls. -/
abbrev Lim : Type := LimitRead × BufIo

/-- A limiter with `data` to read, after which `left` is left. -/
inductive Awaits : LimitRead → BufIo → Bytes → Bytes → Prop where
  | contentLength {v : ContentLengthRead} {io : BufIo} {data left : Bytes}
      (total : v.total + data.length = v.limit) (limit : v.limit < 2 ^ 64)
      (stream : io.stream = data ++ left) : Awaits (.contentLength v) io data left
  | chunked {v : ChunkedDecoder} {io : BufIo} {data : Bytes} {l : LastChunk} {rest : Bytes}
      (body : ChunkedDecoder.OnBody l data rest (v, io)) :
      Awaits (.chunkedDecoder v) io data (l.left ++ rest)

variable {s s' : Lim} {n : Nat} {l : LimitRead} {io io' : BufIo} {data left : Bytes}

/-- All that a limiter waits for has come when it is complete. -/
theorem Awaits.complete (h : Awaits l io data left) (hc : l.isComplete = true) :
    data = [] ∧ io.stream = left := by
  cases h with
  | contentLength total limit stream =>
      have he := beq_iff_eq.mp hc
      obtain rfl : data = [] := List.length_eq_zero_iff.mp (by omega)
      exact ⟨rfl, stream⟩
  | chunked body =>
      obtain ⟨wire, hx, hst⟩ := body
      obtain ⟨rfl, rfl⟩ := hx.at_end hc
      exact ⟨rfl, hst⟩

/-- A content-length is complete with its last byte. -/
theorem Awaits.complete_of_nil {v : ContentLengthRead}
    (h : Awaits (.contentLength v) io [] left) : LimitRead.isComplete (.contentLength v) = true := by
  cases h with
  | contentLength total limit stream => exact beq_iff_eq.mpr total

/-- What is awaited of a reader is awaited of its stream. -/
theorem Awaits.of_stream (h : Awaits l io data left) (hst : io'.stream = io.stream) :
    Awaits l io' data left := by
  cases h with
  | contentLength total limit stream => exact .contentLength total limit (hst.trans stream)
  | chunked body =>
      obtain ⟨wire, hx, hw⟩ := body
      exact .chunked ⟨wire, hx, hst.trans hw⟩

theorem Awaits.reads (h : Awaits l io data left) (hr : Reads [] io io') :
    Awaits l io' data left := h.of_stream hr.stream.symm

theorem wp_pollInner {ρ : Type} {v : ρ} {wrap : ρ → LimitRead} {x : PollM IoError (ρ × BufIo) Bytes}
    {Q : Outcome IoError Bytes → Lim → Prop} :
    wp (pollInner v wrap x) Q s ↔ wp x (fun r t => Q r (wrap t.1, t.2)) (v, s.2) := Iff.rfl

/-! ### Of whatever bytes -/

/-- What overflowing arithmetic panics with. -/
def overflowPanics : List String :=
  ["attempt to add with overflow", "attempt to subtract with overflow"]

/-- What `poll_read` comes to, of whatever bytes. -/
def MovesPost (n : Nat) (io : BufIo) : Outcome IoError Bytes → BufIo → Prop
  | .ready out, io' => out.length ≤ n ∧ ∃ front, Reads (front ++ out) io io'
  | .pending, io' => (∃ bs, Reads bs io io') ∧ Waits io io'
  | .fail _, io' => ∃ bs, Reads bs io io'
  | .panic m, io' => (∃ bs, Reads bs io io') ∧ m ∈ overflowPanics
  | .diverge, _ => False

theorem contentLength_moves (v : ContentLengthRead) (hw : io.Wf) (hn : n ≠ 0) :
    wp (ContentLengthRead.pollRead n) (fun r t => MovesPost n io r t.2) (v, io) := by
  simp only [ContentLengthRead.pollRead, wp_bind, wp_assert, wp_get, bindPost, wp_ite, wp_zoom]
  rw [if_pos (decide_eq_true hn)]
  split
  · split
    · exact ⟨Nat.zero_le _, [], Reads.refl io⟩
    · refine (pollReadBuf_spec hw _).mono fun r io' h => ?_
      cases r with
      | pending => exact ⟨⟨[], h.1⟩, h.2⟩
      | fail e => exact ⟨[], h.1⟩
      | panic m => exact h.elim
      | diverge => exact h.elim
      | ready bs =>
          obtain ⟨hr, hle, -⟩ := h
          dsimp only [bindPost]
          split
          · exact ⟨bs, hr⟩
          · split
            · exact ⟨Nat.le_trans hle (Nat.min_le_left _ _), [], hr⟩
            · exact ⟨⟨bs, hr⟩, by simp [overflowPanics]⟩
  · exact ⟨⟨[], Reads.refl io⟩, by simp [overflowPanics]⟩

theorem readToEnd_moves (v : ReadToEnd) (hw : io.Wf) (hn : n ≠ 0) :
    wp (ReadToEnd.pollRead n) (fun r t => MovesPost n io r t.2) (v, io) := by
  simp only [ReadToEnd.pollRead, wp_bind, wp_assert, wp_get, bindPost, wp_ite, wp_attempt, wp_zoom]
  rw [if_pos (decide_eq_true hn)]
  split
  · exact ⟨Nat.zero_le _, [], Reads.refl io⟩
  · refine (pollReadBuf_spec hw _).mono fun r io' h => ?_
    cases r with
    | pending => exact ⟨⟨[], h.1⟩, h.2⟩
    | panic m => exact h.elim
    | diverge => exact h.elim
    | fail e =>
        dsimp only [bindPost]
        split
        · exact ⟨Nat.zero_le _, [], h.1⟩
        · exact ⟨[], h.1⟩
    | ready bs =>
        obtain ⟨hr, hle, -⟩ := h
        dsimp only [Outcome.map, bindPost]
        split
        · exact ⟨hle, [], hr⟩
        · exact ⟨hle, [], hr⟩

/-- **What `poll_read` comes to, of whatever bytes.** -/
theorem pollRead_moves (l : LimitRead) (hw : io.Wf) (hn : n ≠ 0) :
    wp (LimitRead.pollRead n) (fun r s' => MovesPost n io r s'.2) (l, io) := by
  rw [LimitRead.pollRead, wp_bind, wp_get, bindPost]
  cases l with
  | noBody => exact ⟨Nat.zero_le _, [], Reads.refl io⟩
  | contentLength v => exact wp_pollInner.mpr (contentLength_moves v hw hn)
  | readToEnd v => exact wp_pollInner.mpr (readToEnd_moves v hw hn)
  | chunkedDecoder v =>
      refine wp_pollInner.mpr ?_
      refine (ChunkedDecoder.pollRead_moves (s := (v, io)) hw hn).mono fun r s' h => ?_
      cases r with
      | ready out => exact h
      | pending => exact h
      | fail e => exact h
      | panic m => exact h.elim
      | diverge => exact h.elim

/-! ### Over its body -/

theorem contentLength_awaits {v : ContentLengthRead} (hw : io.Wf) (hn : n ≠ 0)
    (hcl : Transport.Clean io.inner.rx) (h : Awaits (.contentLength v) io data left) :
    wp (ContentLengthRead.pollRead n) (fun r t => match r with
      | .ready out => ∃ data', data = out ++ data' ∧ Awaits (.contentLength t.1) t.2 data' left ∧
          (out = [] → LimitRead.isComplete (.contentLength t.1) = true)
      | .pending => Awaits (.contentLength t.1) t.2 data left ∧ Reads [] io t.2
      | _ => False) (v, io) := by
  cases h with | contentLength total limit stream => ?_
  simp only [ContentLengthRead.pollRead, wp_bind, wp_assert, wp_get, bindPost, wp_ite, wp_zoom]
  have hle : v.total ≤ v.limit := by omega
  rw [if_pos (decide_eq_true hn), if_pos (decide_eq_true hle)]
  split
  · next h0 =>
    have hd : data.length = 0 := by omega
    obtain rfl := List.length_eq_zero_iff.mp hd
    exact ⟨[], rfl, .contentLength total limit stream, fun _ => beq_iff_eq.mpr total⟩
  · next h0 =>
    refine (pollReadBuf_spec hw _).mono fun r io' h => ?_
    cases r with
    | pending => exact ⟨(Awaits.contentLength total limit stream).reads h.1, h.1⟩
    | fail e => exact h.2 hcl
    | panic m => exact h
    | diverge => exact h
    | ready bs =>
        obtain ⟨hr, hbs, heof⟩ := h
        have hne : bs.length ≠ 0 := by
          intro hz
          -- At the end of the stream nothing can be missing.
          obtain ⟨he, hu⟩ := heof (List.length_eq_zero_iff.mp hz) (by omega) hcl
          have hd := congrArg List.length (stream.symm.trans (he.stream hu))
          rw [List.length_append, List.length_nil] at hd
          omega
        obtain ⟨data', rfl⟩ : ∃ data', data = bs ++ data' :=
          (List.prefix_of_prefix_length_le ⟨_, hr.stream.symm.trans stream⟩ ⟨_, rfl⟩
            (by omega)).imp fun _ h => h.symm
        have hst := hr.stream.symm.trans stream
        rw [List.append_assoc, List.append_cancel_left_eq] at hst
        rw [List.length_append] at total
        have hlt : v.total + bs.length < 2 ^ 64 := by omega
        simp only [bindPost, wp_modify, if_neg hne]
        rw [if_pos (decide_eq_true hlt)]
        refine ⟨data', rfl, .contentLength ?_ limit hst, fun hnil => ?_⟩
        · show v.total + bs.length + data'.length = v.limit
          omega
        · exact absurd (List.length_eq_zero_iff.mpr hnil) hne

/-- **A limiter over its body.**  A poll reads a front of the data, and none of it only at the
end. -/
theorem pollRead_awaits (hw : io.Wf) (hn : n ≠ 0) (hcl : Transport.Clean io.inner.rx)
    (h : Awaits l io data left) :
    wp (LimitRead.pollRead n) (fun r s' => match r with
      | .ready out => ∃ data', data = out ++ data' ∧ Awaits s'.1 s'.2 data' left ∧
          (out = [] → s'.1.isComplete = true)
      | .pending => Awaits s'.1 s'.2 data left
      | _ => False) (l, io) := by
  rw [LimitRead.pollRead, wp_bind, wp_get, bindPost]
  cases l with
  | noBody => cases h
  | readToEnd v => cases h
  | contentLength v =>
      refine wp_pollInner.mpr ?_
      refine (contentLength_awaits hw hn hcl h).mono fun r t h => ?_
      cases r with
      | ready out => exact h
      | pending => exact h.1
      | fail e => exact h
      | panic m => exact h
      | diverge => exact h
  | chunkedDecoder v =>
      cases h with | chunked body => ?_
      refine wp_pollInner.mpr ?_
      refine (ChunkedDecoder.pollRead_expects (Nat.pos_of_ne_zero hn) hw hcl body).mono
        fun r t h => ?_
      replace h := h.2
      cases r with
      | ready out =>
          obtain ⟨-, data', hd, hb, hend⟩ := h
          exact ⟨data', hd, .chunked hb, hend⟩
      | pending => exact .chunked h.1
      | fail e => exact h
      | panic m => exact h
      | diverge => exact h

theorem Awaits.read {bs : Bytes} {limit : LimitRead} (h : Awaits l io data left) (hw : io.Wf)
    (hn : n ≠ 0) (hcl : Transport.Clean io.inner.rx)
    (hl : LimitRead.pollRead n (l, io) = (.ready bs, (limit, io'))) :
    ∃ data', data = bs ++ data' ∧ Awaits limit io' data' left :=
  (wp_elim (pollRead_awaits hw hn hcl h) hl).imp fun _ h => ⟨h.1, h.2.1⟩

end HreqH1.LimitRead
