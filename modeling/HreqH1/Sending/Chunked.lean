import HreqH1.Reading.Framing
import HreqH1.Reading.ReadOut
import HreqH1.Sending.ContentLength

/-!
# Sending — chunked bodies

The other end of `ChunkedDecoder`: what `send_data` puts on the channel of a chunked stream is a
body in the coding, one chunk for each call with data and the last chunk for the call that ends it.
Whatever is called, the items are such a body with the accepted data in it (`Coding`), so the decoder
reads exactly that data out of them (`chunked_round_trip`).
-/

namespace HreqH1

/-! ### Sizes -/

theorem foldDigits_append {radix acc : Nat} {xs ys : Bytes} :
    foldDigits radix acc (xs ++ ys) =
      (foldDigits radix acc xs).bind fun a => foldDigits radix a ys := by
  induction xs generalizing acc with
  | nil => rfl
  | cons b xs ih =>
      rw [List.cons_append, foldDigits, foldDigits]
      cases toDigit radix b with
      | none => rfl
      | some d => exact ih

/-- The digit `{:x}` prints is read back. -/
theorem toDigit_digitChar {d : Nat} (h : d < 16) :
    toDigit 16 (Nat.digitChar d).toNat.toUInt8 = some d := by
  have hall : ∀ d < 16, toDigit 16 (Nat.digitChar d).toNat.toUInt8 = some d := by decide
  exact hall d h

/-- The number `{:x}` prints is read back. -/
theorem foldDigits_lowerHex (n : Nat) : foldDigits 16 0 (lowerHex n) = some n := by
  induction n using Nat.strongRecOn with
  | ind n ih =>
      rw [lowerHex, Nat.toDigits_eq_if (by decide)]
      split
      · next hlt =>
        rw [List.map_cons, List.map_nil, foldDigits, toDigit_digitChar hlt]
        simp [foldDigits]
      · next hge =>
        have hdiv := ih (n / 16) (Nat.div_lt_self (by omega) (by decide))
        have hmod : n % 16 < 16 := Nat.mod_lt n (by decide)
        rw [lowerHex] at hdiv
        rw [List.map_append, foldDigits_append, hdiv]
        rw [Option.bind_some, List.map_cons, List.map_nil, foldDigits, toDigit_digitChar hmod]
        simp only [foldDigits, Option.bind_some, Option.some.injEq]
        omega

theorem length_lowerHex {n : Nat} (h : n < 16 ^ 10) : (lowerHex n).length ≤ 10 := by
  rw [lowerHex, List.length_map]
  exact Nat.toDigits_length 16 n 10 (by decide) h

/-! ### Chunks -/

theorem chunkExt_nil : ChunkExt [] := ⟨.inl rfl, List.not_mem_nil, List.not_mem_nil⟩

/-- The chunk that `write_chunk` makes of data. -/
def Chunk.ofData (bs : Bytes) (hne : bs ≠ []) (hlt : bs.length < 16 ^ 10) : Chunk where
  digits := lowerHex bs.length
  ext := []
  data := bs
  digits_le := length_lowerHex hlt
  size_eq := foldDigits_lowerHex bs.length
  data_ne := hne
  ext_ok := chunkExt_nil

/-- What `write_chunk` writes. -/
def chunkOf (bs : Bytes) : Bytes :=
  if bs = [] then [] else lowerHex bs.length ++ crlf ++ bs ++ crlf

/-- What `write_finish` writes. -/
def bodyEnd : Bytes := ascii "0\r\n\r\n"

theorem chunkOf_ofData {bs : Bytes} (hne : bs ≠ []) (hlt : bs.length < 16 ^ 10) :
    chunkOf bs = (Chunk.ofData bs hne hlt).bytes := by
  rw [chunkOf, if_neg hne]
  simp [Chunk.bytes, Chunk.afterSize, Chunk.ofData]

theorem bodyEnd_eq : bodyEnd = ChunkedDecoder.plainLast.zeros ++ ChunkedDecoder.plainLast.afterSize := by
  decide

theorem length_chunkOf {bs : Bytes} (h : bs.length < 16 ^ 10) :
    (chunkOf bs).length ≤ bs.length + 14 := by
  have := length_lowerHex h
  rw [chunkOf]
  split
  · simp
  · simp only [List.length_append, crlf, List.length_cons, List.length_nil]
    omega

namespace ChunkedEncoder
variable [VecAlloc]

/-- `write_chunk` into a buffer with room. -/
theorem writeChunk_ok {b : FastBuf} {bs : Bytes} (h : (chunkOf bs).length < b.spare) :
    ∃ b', writeChunk bs b = (.ready (), b') ∧ b'.data = b.data ++ chunkOf bs ∧
      b'.capacity = b.capacity := by
  by_cases hne : bs = []
  · subst hne
    exact ⟨b, rfl, by rw [chunkOf, if_pos rfl, List.append_nil], rfl⟩
  · have hflat : [lowerHex bs.length ++ crlf, bs, crlf].flatten = chunkOf bs := by
      rw [chunkOf, if_neg hne]
      simp
    obtain ⟨b', he, hd, hc⟩ := @extendAll_ok _ b [lowerHex bs.length ++ crlf, bs, crlf]
      (Nat.lt_of_le_of_lt (Nat.zero_le _) h) (by rw [hflat]; exact Nat.le_of_lt h)
    refine ⟨b', ?_, by rw [hd, hflat], hc⟩
    have hempty : bs.isEmpty = false := by rw [List.isEmpty_eq_false_iff]; exact hne
    rw [writeChunk, hempty]
    simp [PollM.orPanic, he]

/-- `write_finish` into a buffer with room. -/
theorem writeFinish_ok {b : FastBuf} (h : 5 ≤ b.spare) :
    ∃ b', writeFinish b = (.ready (), b') ∧ b'.data = b.data ++ bodyEnd := by
  obtain ⟨b', he, hd, -⟩ := @extendAll_ok _ b [bodyEnd] (by omega) (show 5 ≤ b.spare from h)
  refine ⟨b', ?_, by rw [hd, List.flatten_cons, List.flatten_nil, List.append_nil]⟩
  rw [bodyEnd] at he
  simp [writeFinish, PollM.orPanic, he]

end ChunkedEncoder

namespace SendStream
open Runs PollM
variable [VecAlloc]

/-! ### One call -/

/-- A stream with chunked coding. -/
abbrev coding (ended drive : Bool) : SendStream := ⟨.chunkedEncoder, ended, drive⟩

/-- What a call puts on the channel. -/
def codedItem (bs : Bytes) (fin : Bool) : Bytes := chunkOf bs ++ if fin then bodyEnd else []

variable {s : Out} {a : MixedOp} {cx : Waker} {bs : Bytes} {fin owned ended drive : Bool}
variable {c : Chan (Bytes × Bool)}

/-- **The overhead is enough.**  Below `16 ^ 10` bytes of data fit with their size and the end of the
body into the buffer that is made for them. -/
theorem toSend_coding (hlt : bs.length < 16 ^ 10) :
    toSend (dataOf owned bs) fin (coding ended drive, c) =
      (.ready (codedItem bs fin), (coding (fin || ended) drive, c)) := by
  have hshared : toSend (dataOf owned bs) fin (coding ended drive, c) =
      (onLimit (.withCapacity (bs.length + 32)) (LimitWrite.write bs) >>= sealChunk fin)
        (coding ended drive, c) := by
    cases owned <;> rfl
  have hlen := length_chunkOf hlt
  have hroom : (chunkOf bs).length < (FastBuf.withCapacity (bs.length + 32)).spare := by
    rw [FastBuf.spare, FastBuf.len_withCapacity, FastBuf.capacity_withCapacity]
    omega
  obtain ⟨b, hw, hd, hc⟩ := ChunkedEncoder.writeChunk_ok hroom
  have hwrite : onLimit (.withCapacity (bs.length + 32)) (LimitWrite.write bs)
      (coding ended drive, c) = (.ready b, (coding ended drive, c)) := by
    simp [onLimit, LimitWrite.write, hw]
  rw [FastBuf.data_withCapacity, List.nil_append] at hd
  rw [FastBuf.capacity_withCapacity] at hc
  rw [hshared, run_bind_ready hwrite]
  cases fin with
  | false => simp [sealChunk, FastBuf.intoVec, hd, codedItem]
  | true =>
      obtain ⟨b', hf, hd'⟩ := @ChunkedEncoder.writeFinish_ok _ b
        (by rw [FastBuf.spare, FastBuf.len, hd, hc]; omega)
      simp [sealChunk, onLimit, LimitWrite.finish, hf, FastBuf.intoVec, hd', hd, codedItem]

/-- A call on a stream whose channel has room. -/
theorem call_coding (hlt : bs.length < 16 ^ 10) (ho : c.Open) :
    pollSendData cx (dataOf owned bs) fin (coding false drive, c) =
      (.ready (), (coding fin drive, c.enqueue (codedItem bs fin, fin))) := by
  rw [pollSendData_open rfl ho, run_bind_ready (toSend_coding hlt), Bool.or_false]
  rfl

/-! ### Runs -/

/-- The stream of a chunked message, and its channel. -/
def chunked (drive : Bool) : Out := (coding false drive, Chan.new 1)

/-- The data of a call is shorter than `16 ^ 10` bytes. -/
def Short : MixedOp → Prop
  | (_, .send _ bs _) => bs.length < 16 ^ 10
  | _ => True

/-- The data of a call that returned `Ok`. -/
def acceptedData : MixedOp → Obs → Bytes
  | (_, .send _ bs _), .sent (.ready ()) => bs
  | _, _ => []

/-- The data of all calls of a run that returned `Ok`. -/
def sentData (ops : List MixedOp) (s : Out) : Bytes :=
  (List.zipWith acceptedData ops (run stepMixed ops s).1).flatten

/-- The items handed to the connection, one after the other. -/
def wire (s : Out) : Bytes := s.2.sent.flatMap Prod.fst

/-- The items so far are the chunks of `data`, and the end of the body once the stream has ended. -/
structure Coding (data : Bytes) (s : Out) : Prop where
  stream : ∃ ended drive, s.1 = coding ended drive
  items : ∃ cs : List Chunk, bodyData cs = data ∧
    wire s = cs.flatMap Chunk.bytes ++ if s.1.ended then bodyEnd else []
  dead : s.2.ended = true → s.2.receivers = 0

variable {data : Bytes}

omit [VecAlloc] in
theorem coding_chunked (drive : Bool) : Coding [] (chunked drive) where
  stream := ⟨false, drive, rfl⟩
  items := ⟨[], rfl, rfl⟩
  dead := by intros; contradiction

omit [VecAlloc] in
/-- The other end of the channel does not matter. -/
theorem Coding.otherEnd {p : SendStream} {c' : Chan (Bytes × Bool)} (h : Coding data (p, c))
    (hs : c'.sent = c.sent) (hd : c'.ended = true → c'.receivers = 0) : Coding data (p, c') := by
  obtain ⟨cs, hcs, hw⟩ := h.items
  refine ⟨h.stream, ⟨cs, hcs, ?_⟩, hd⟩
  rw [wire, hs]
  exact hw

omit [VecAlloc] in
/-- A call that is accepted before the end. -/
theorem Coding.item (h : Coding data (coding false drive, c)) (hlt : bs.length < 16 ^ 10)
    (ho : c.Open) :
    Coding (data ++ bs) (coding fin drive, c.enqueue (codedItem bs fin, fin)) := by
  have hce : c.ended = false := Bool.eq_false_iff.mpr fun he => ho.1 (h.dead he)
  obtain ⟨cs, rfl, hw⟩ := h.items
  have hwire : wire (coding fin drive, c.enqueue (codedItem bs fin, fin)) =
      cs.flatMap Chunk.bytes ++ codedItem bs fin := by
    have hw' : c.sent.flatMap Prod.fst = cs.flatMap Chunk.bytes := hw.trans (List.append_nil _)
    rw [wire, Chan.sent_enqueue _ hce]
    simp [hw']
  refine ⟨⟨fin, drive, rfl⟩, ?_, fun he => ?_⟩
  · by_cases hne : bs = []
    · subst hne
      exact ⟨cs, (List.append_nil _).symm, by rw [hwire, codedItem, chunkOf, if_pos rfl]; rfl⟩
    · refine ⟨cs ++ [.ofData bs hne hlt], by simp [bodyData, Chunk.ofData], ?_⟩
      rw [hwire, codedItem, chunkOf_ofData hne hlt, List.flatMap_append, List.append_assoc]
      simp
  · rw [Chan.ended_enqueue, hce] at he
    cases he

/-- What a step keeps, and what it shows. -/
theorem Coding.step (h : Coding data s) (hshort : Short a) :
    Coding (data ++ acceptedData a (stepMixed a s).1) (stepMixed a s).2 ∧
      (∀ m, (stepMixed a s).1 ≠ .sent (.panic m)) ∧
      (IsCall a → s.1.ended = false → s.2.Open → Ok s a) := by
  obtain ⟨ended, drive, hs⟩ := h.stream
  obtain ⟨_, c⟩ := s
  obtain rfl : _ = coding ended drive := hs
  obtain ⟨owned, ⟨cx, bs, fin⟩ | ⟨cx, reg⟩ | _⟩ := a
  · have hlt : bs.length < 16 ^ 10 := hshort
    -- A poll that is not accepted leaves the items as they are.
    have hrest : ∀ {r c'}, pollSendData cx (dataOf owned bs) fin (coding ended drive, c) =
        (r, (coding ended drive, c')) → (r = .ready () → bs = []) → (∀ m, r ≠ .panic m) →
        c'.sent = c.sent → (c'.ended = true → c'.receivers = 0) →
        Coding (data ++ acceptedData (owned, .send cx bs fin)
            (stepMixed (owned, .send cx bs fin) (coding ended drive, c)).1)
          (stepMixed (owned, .send cx bs fin) (coding ended drive, c)).2 ∧
        ∀ m, (stepMixed (owned, .send cx bs fin) (coding ended drive, c)).1 ≠ .sent (.panic m) := by
      intro r c' hp hready hm hsent hdead
      have hstep : stepMixed (owned, .send cx bs fin) (coding ended drive, c) =
          (.sent r, (coding ended drive, c')) := by
        show (Obs.sent _, _) = _
        rw [hp]
      rw [hstep]
      refine ⟨?_, fun m hm' => hm m (Obs.sent.inj hm')⟩
      have hnil : acceptedData (owned, .send cx bs fin) (.sent r) = [] := by
        cases r with
        | ready u => exact hready rfl
        | pending => rfl
        | fail e => rfl
        | panic m => rfl
        | diverge => rfl
      rw [hnil, List.append_nil]
      exact h.otherEnd hsent hdead
    cases ended with
    | true =>
        have hp : pollSendData cx (dataOf owned bs) fin (coding true drive, c) = _ :=
          pollSendData_ended rfl
        have hready : (if fin = true ∧ (dataOf owned bs).isEmpty = true then Outcome.ready ()
            else .fail (Error.user "Body data is not expected")) = .ready () → bs = [] := by
          split
          · next hb => exact fun _ => List.isEmpty_iff.mp (isEmpty_dataOf owned bs ▸ hb.2)
          · simp
        obtain ⟨h₁, h₂⟩ := hrest hp hready (fun m => by split <;> simp) rfl h.dead
        exact ⟨h₁, h₂, fun _ he => (by cases he)⟩
    | false =>
        by_cases h0 : c.receivers = 0
        · have hp : pollSendData cx (dataOf owned bs) fin (coding false drive, c) = _ :=
            pollSendData_closed rfl h0
          obtain ⟨h₁, h₂⟩ := hrest hp (by simp) (by simp) rfl h.dead
          exact ⟨h₁, h₂, fun _ _ ho => absurd h0 ho.1⟩
        by_cases ho : c.Open
        · have hp : pollSendData cx (dataOf owned bs) fin (coding false drive, c) = _ :=
            call_coding hlt ho
          have hstep : stepMixed (owned, .send cx bs fin) (coding false drive, c) =
              (.sent (.ready ()), (coding fin drive, c.enqueue (codedItem bs fin, fin))) := by
            show (Obs.sent _, _) = _
            rw [hp]
          rw [Ok, hstep]
          exact ⟨h.item hlt ho, by simp, fun _ _ _ => rfl⟩
        · have hp : pollSendData cx (dataOf owned bs) fin (coding false drive, c) = _ :=
            pollSendData_full rfl h0 ho
          obtain ⟨h₁, h₂⟩ := hrest hp (by simp) (by simp) rfl h.dead
          exact ⟨h₁, h₂, fun _ _ ho' => absurd ho' ho⟩
  · obtain ⟨hsent, hce, hcr⟩ := @Chan.pollRecv_keeps _ Error c cx reg
    have hd : Coding data (stepMixed (owned, .recv cx reg) (coding ended drive, c)).2 :=
      h.otherEnd hsent fun he => hcr.trans (h.dead (hce ▸ he))
    refine ⟨?_, fun m hm => (by cases hm), fun hc => False.elim hc⟩
    exact (List.append_nil data).symm ▸ hd
  · have hd : Coding data (stepMixed (owned, .close) (coding ended drive, c)).2 :=
      h.otherEnd Chan.dropReceiver_sent fun he => Chan.dropReceiver_dead h.dead he
    refine ⟨?_, fun m hm => (by cases hm), fun hc => False.elim hc⟩
    exact (List.append_nil data).symm ▸ hd

/-- What a run keeps. -/
theorem Coding.run (h : Coding data s) {ops : List MixedOp} (hshort : ∀ a ∈ ops, Short a) :
    Coding (data ++ sentData ops s) (after stepMixed ops s) ∧
      (∀ o ∈ (Runs.run stepMixed ops s).1, ∀ m, o ≠ .sent (.panic m)) ∧
      Along stepMixed (fun s a => IsCall a → s.1.ended = false → s.2.Open → Ok s a) ops s := by
  induction ops generalizing s data with
  | nil =>
      refine ⟨?_, fun o ho => (by cases ho), trivial⟩
      exact (List.append_nil data).symm ▸ h
  | cons a ops ih =>
      obtain ⟨hc, hm, hok⟩ := h.step (hshort a List.mem_cons_self)
      obtain ⟨hc', hm', hok'⟩ := ih hc fun b hb => hshort b (List.mem_cons_of_mem a hb)
      refine ⟨?_, fun o ho => ?_, hok, hok'⟩
      · rw [List.append_assoc] at hc'
        exact hc'
      · rcases List.mem_cons.mp ho with rfl | ho
        · exact hm
        · exact hm' o ho

/-- A fresh decoder, with a reader over the bytes `bs`: some of them may be buffered, and the
transport answers with the others in any pieces, and with `Pending` in between. -/
structure Feeds (bs : Bytes) (d : ChunkedDecoder.Dec) : Prop where
  decoder : d.1 = .new
  wf : d.2.Wf
  clean : Transport.Clean d.2.inner.rx
  stream : d.2.stream = bs

/-- Two bytes, an empty slice, and the end of the body with one more byte; the items are taken. -/
def threeCalls : List MixedOp :=
  [(false, .send 0 [97, 98] false), (false, .recv 1 true), (false, .send 0 [] false),
    (false, .recv 1 true), (true, .send 0 [99] true)]

instance : DecidablePred Short
  | (_, .send _ bs _) => inferInstanceAs (Decidable (bs.length < 16 ^ 10))
  | (_, .recv _ _) => .isTrue trivial
  | (_, .close) => .isTrue trivial

omit [VecAlloc] in
example :
    letI := VecAlloc.amortized
    wire (after stepMixed threeCalls (chunked false)) = ascii "2\r\nab\r\n1\r\nc\r\n0\r\n\r\n" ∧
      sentData threeCalls (chunked false) = ascii "abc" := by
  decide +kernel

end SendStream
end HreqH1
