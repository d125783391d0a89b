import HreqH1.Reading.ChunkedBody
import HreqH1.Support.Runs

/-!
# Reading — where a chunked body ends

The decoder reports the end of a body as soon as it has read the last chunk's size.  The rest of
that line, the trailer and the empty line stay in the reader (`stream_at_end`), and the next head
is looked for in front of them: no body is consumed to its end (`never_consumes_body`).
-/

namespace HreqH1.ChunkedDecoder
open PollM BufIo Runs

/-- A poll for `n + 1` bytes. -/
def step (n : Nat) (s : Dec) : Outcome IoError Bytes × Dec := pollRead (n + 1) s

/-- A decoder and a reader at the start of a body, with `rest` behind it; the transport answers
with the bytes in any pieces, and `Pending` in between. -/
structure AtBody (cs : List Chunk) (l : LastChunk) (rest : Bytes) (s : Dec) : Prop where
  decoder : s.1 = .new
  wf : s.2.Wf
  clean : Transport.Clean s.2.inner.rx
  stream : s.2.stream = codedBody cs l ++ rest

/-- Whatever is polled, once the decoder reports the end exactly the body has been taken. -/
def ConsumesBody (rest : Bytes) (s : Dec) : Prop :=
  ∀ polls, (after step polls s).1.isEnd = true → (after step polls s).2.stream = rest

variable {cs : List Chunk} {l : LastChunk} {rest data : Bytes} {s : Dec}

/-- A decoder on its way through a body. -/
def OnTheWay (l : LastChunk) (rest : Bytes) (s : Dec) : Prop :=
  s.2.Wf ∧ Transport.Clean s.2.inner.rx ∧ ∃ data, OnBody l data rest s

theorem AtBody.onTheWay (h : AtBody cs l rest s) : OnTheWay l rest s :=
  ⟨h.wf, h.clean, bodyData cs, codedBody cs l, h.decoder ▸ expects_start 0, h.stream⟩

/-- A step keeps the decoder on its way; it reads data, or waits, or is at the end. -/
theorem step_onBody (n : Nat) (hw : s.2.Wf) (hcl : Transport.Clean s.2.inner.rx)
    (hb : OnBody l data rest s) :
    (step n s).2.2.Wf ∧ Transport.Clean (step n s).2.2.inner.rx ∧
      ∃ data', OnBody l data' rest (step n s).2 ∧ ((step n s).2.1.isEnd = true ∨
        data'.length + (step n s).2.2.inner.rx.length < data.length + s.2.inner.rx.length) := by
  have h : wp (pollRead (n + 1)) _ s := pollRead_expects (Nat.succ_pos n) hw hcl hb
  obtain ⟨⟨bs, hr⟩, h⟩ := h
  refine ⟨hr.wf hw, hr.clean hcl, ?_⟩
  have hle : (step n s).2.2.inner.rx.length ≤ s.2.inner.rx.length := hr.rx_le
  show ∃ data', OnBody l data' rest (pollRead (n + 1) s).2 ∧ _
  cases hp : (pollRead (n + 1) s).1 with
  | ready out =>
      rw [hp] at h
      obtain ⟨-, data', rfl, hb', hend⟩ := h
      refine ⟨data', hb', ?_⟩
      rcases eq_or_ne out [] with rfl | hne
      · exact .inl (hend rfl)
      · right
        have := List.length_pos_iff.mpr hne
        rw [List.length_append]
        omega
  | pending =>
      rw [hp] at h
      obtain ⟨hb', hwait⟩ := h
      refine ⟨data, hb', .inr ?_⟩
      rcases hwait.blocked with ⟨hrx, -⟩ | hlt
      · -- A silent transport has already given the whole body.
        obtain ⟨wire, hx, hst⟩ := hb'
        rw [hwait.silent hr hrx] at hst
        exact absurd (List.append_eq_nil_iff.mp hst.symm).1 hx.wire_ne
      · exact Nat.add_lt_add_left hlt _
  | fail e => rw [hp] at h; exact h.elim
  | panic m => rw [hp] at h; exact h.elim
  | diverge => rw [hp] at h; exact h.elim

theorem step_onTheWay (n : Nat) (h : OnTheWay l rest s) : OnTheWay l rest (step n s).2 := by
  obtain ⟨hw, hcl, data, hb⟩ := h
  obtain ⟨hw', hcl', data', hb', -⟩ := step_onBody n hw hcl hb
  exact ⟨hw', hcl', data', hb'⟩

/-- The decoder gets to the end of every body. -/
theorem reaches_end (h : OnTheWay l rest s) : ∃ polls, (after step polls s).1.isEnd = true := by
  obtain ⟨hw, hcl, data, hb⟩ := h
  induction hk : data.length + s.2.inner.rx.length using Nat.strongRecOn generalizing s data with
  | ind k ih =>
      obtain ⟨hw', hcl', data', hb', hend | hlt⟩ := step_onBody 0 hw hcl hb
      · exact ⟨[0], hend⟩
      · obtain ⟨polls, hp⟩ := ih _ (hk ▸ hlt) hw' hcl' data' hb' rfl
        exact ⟨0 :: polls, hp⟩

/-- What the decoder leaves at the end of a body. -/
theorem stream_at_end (h : OnTheWay l rest s) {polls : List Nat}
    (he : (after step polls s).1.isEnd = true) : (after step polls s).2.stream = l.left ++ rest := by
  obtain ⟨-, -, data, wire, hx, hst⟩ :=
    run_invariant (I := OnTheWay l rest) (fun _ n hs _ => step_onTheWay n hs) (along_true polls s) h
  rw [hst, (hx.at_end he).1]

/-- **No chunked body is consumed to its end.**  Of every body some closing bytes are left, in
front of whatever follows. -/
theorem never_consumes_body (h : AtBody cs l rest s) : ¬ ConsumesBody rest s := by
  intro hc
  obtain ⟨polls, he⟩ := reaches_end h.onTheWay
  have hst := stream_at_end h.onTheWay he
  rw [hc polls he] at hst
  exact l.left_ne (List.append_left_eq_self.mp hst.symm)

/-- The chunk `1\r\na\r\n`. -/
def oneByte : Chunk where
  digits := [49]
  ext := []
  data := [97]
  digits_le := by decide
  size_eq := by decide
  data_ne := by decide
  ext_ok := ⟨.inl rfl, by decide, by decide⟩

/-- The last chunk `0\r\n` and the empty line. -/
def plainLast : LastChunk where
  zeros := [48]
  ext := []
  trailers := []
  zeros_ne := by decide
  zeros_le := by decide
  zeros_ok := fun _ hb => List.mem_singleton.mp hb
  ext_ok := ⟨.inl rfl, by decide, by decide⟩
  trailers_ok := by simp

/-- A decoder at `1\r\na\r\n0\r\n\r\n`, in one read, and the end of the stream. -/
def atOneByte : Dec :=
  (.new, .withCapacity 16 ⟨[.data (codedBody [oneByte] plainLast)], true, [], [], 0⟩)

theorem one_byte_not_consumed : ¬ ConsumesBody [] atOneByte := by
  intro h
  have hst := h [0, 0] (by decide)
  revert hst
  decide

theorem never_consumes_one_byte :
    AtBody [oneByte] plainLast [] atOneByte ∧ ¬ ConsumesBody [] atOneByte := by
  have h : AtBody [oneByte] plainLast [] atOneByte := by
    refine ⟨rfl, ⟨by decide, .inr ⟨rfl, rfl⟩, by intros; contradiction⟩, ?_, by decide⟩
    intro e he
    rw [List.mem_singleton.mp he]
    exact .inr ⟨_, _, rfl⟩
  exact ⟨h, never_consumes_body h⟩

end HreqH1.ChunkedDecoder
