import Aesd.Server.Receive

namespace Aesd.Server

open Aesd.Library Aesd.Driver

inductive DeviceOperation where
  | write (payload : List Byte)
  | seek (seekto : AesdSeekto)
deriving DecidableEq, Repr

def Syscall.operation : Syscall → Option DeviceOperation
  | .write payload => some (.write payload)
  | .ioctl seekto => some (.seek seekto)
  | _ => none

/-- The writes and seeks of a run, in order. -/
def operations (trace : List (Event × Syscall)) : List DeviceOperation :=
  trace.filterMap fun step => step.2.operation

def Event.chunk : Event → Option (List Byte)
  | .recv result => result
  | _ => none

/-- What the successful calls of `recv` returned, in order. -/
def chunks (trace : List (Event × Syscall)) : List (List Byte) :=
  trace.filterMap fun step => step.1.chunk

def hasNewline (chunk : List Byte) : Bool := chunk.any (· == newline)

/-- A payload is everything received up to and with the first chunk that has a newline. -/
def payloads (chunks : List (List Byte)) : List (List Byte) :=
  (cut hasNewline chunks).1.map List.flatten

/-- The newline-terminated lines of a stream. -/
def lines (stream : List Byte) : List (List Byte) := (cut (· == newline) stream).1

/-- What a payload means; `none` for a seek without a comma, on which `process` dies. -/
def operationOf (payload : List Byte) : Option DeviceOperation :=
  if kIOCtrlStr.isPrefixOf payload then
    (parseSeekto (payload.drop kIOCtrlStr.length)).map .seek
  else some (.write payload)

theorem operationOf_eq_write {payload written : List Byte} :
    operationOf payload = some (.write written) ↔
      written = payload ∧ kIOCtrlStr.isPrefixOf payload = false := by
  unfold operationOf
  cases isSeek : kIOCtrlStr.isPrefixOf payload with
  | true => simp
  | false => simp [eq_comm]

theorem isPrefixOf_of_operationOf_seek {payload : List Byte} {seekto : AesdSeekto}
    (means : operationOf payload = some (.seek seekto)) : kIOCtrlStr.isPrefixOf payload = true := by
  by_contra isLine
  rw [operationOf, if_neg isLine] at means
  cases means

/-- The bytes that `realloc` appended are zero. -/
def Event.zeroed : Event → Bool
  | .realloc (some fresh) => fresh.all (· == 0)
  | _ => true

/-- The chunks of one turn, complete with the last of them. -/
def CompleteTurn (turn : List (List Byte)) : Prop :=
  ∃ earlier last, turn = earlier ++ [last] ∧ hasNewline last = true

/-- The receive buffer holds the turn's chunks and zeros. -/
def HoldsTurn (thread : Thread) (turn : List (List Byte)) (sizes : Thread → List Byte → List Byte → Prop) :
    Prop :=
  ∃ block tail, Holding thread block turn.flatten tail ∧ sizes thread turn.flatten tail ∧
    ∀ byte ∈ tail, byte = 0

/-- `bufferSize` is ahead of the block that `realloc` is to grow. -/
def Ahead (thread : Thread) (received tail : List Byte) : Prop :=
  thread.bufferSize.toInt = ((received.length + tail.length : Int) + 128).bmod (2 ^ 32)

/-- What is known at each place about the chunks not yet turned into an operation. -/
def Place (thread : Thread) (turn : List (List Byte)) : Prop :=
  match thread.pc with
  | .checkExit | .recv =>
    (∀ chunk ∈ turn, hasNewline chunk = false) ∧ HoldsTurn thread turn Sized
  | .realloc => HoldsTurn thread turn Ahead
  | .lock | .openDevice => CompleteTurn turn ∧ HoldsTurn thread turn Sized
  | .write | .ioctl =>
    CompleteTurn turn ∧ ∃ operation, thread.syscall.operation = some operation ∧
      operationOf turn.flatten = some operation
  | .crashed => CompleteTurn turn ∧ operationOf turn.flatten = none
  | .unlockExit | .returned => True
  | _ => turn = []

/-- A run so far: chunks of finished turns, whose operations were performed, and the
chunks of the current one. -/
structure Framed (trace : List (Event × Syscall)) (thread : Thread)
    (done turn : List (List Byte)) : Prop where
  received : chunks trace = done ++ turn
  closed : (cut hasNewline done).2 = []
  pending : ∀ chunk ∈ turn.dropLast, hasNewline chunk = false
  performed : (payloads done).map operationOf = (operations trace).map some
  noNul : ∀ chunk ∈ turn, (0 : Byte) ∉ chunk
  place : Place thread turn

theorem hasNewline_iff {chunk : List Byte} : hasNewline chunk = true ↔ newline ∈ chunk := by
  simp [hasNewline]

theorem payloads_append_complete {done turn : List (List Byte)}
    (closed : (cut hasNewline done).2 = [])
    (pending : ∀ chunk ∈ turn.dropLast, hasNewline chunk = false) (complete : CompleteTurn turn) :
    (cut hasNewline (done ++ turn)).2 = [] ∧
      payloads (done ++ turn) = payloads done ++ [turn.flatten] := by
  obtain ⟨earlier, last, rfl, finished⟩ := complete
  rw [List.dropLast_concat] at pending
  rw [payloads, cut_append_closed done pending finished, closed]
  simp [payloads]

theorem payloads_append_open {done turn : List (List Byte)}
    (continues : ∀ chunk ∈ turn, hasNewline chunk = false) :
    payloads (done ++ turn) = payloads done := by
  rw [payloads, cut_append_open done continues, payloads]

theorem cString_zeros {received tail : List Byte} (noNul : (0 : Byte) ∉ received)
    (room : tail ≠ []) (zeros : ∀ byte ∈ tail, byte = 0) : cString (received ++ tail) = received := by
  obtain ⟨first, rest, rfl⟩ := List.exists_cons_of_ne_nil room
  rw [zeros first List.mem_cons_self]
  exact cString_append_zero noNul

theorem zero_notMem_flatten {turn : List (List Byte)} (noNul : ∀ chunk ∈ turn, (0 : Byte) ∉ chunk) :
    (0 : Byte) ∉ turn.flatten := by
  intro member
  obtain ⟨chunk, inTurn, inside⟩ := List.mem_flatten.mp member
  exact noNul chunk inTurn inside

theorem completeTurn_iff {turn : List (List Byte)}
    (pending : ∀ chunk ∈ turn.dropLast, hasNewline chunk = false) :
    newline ∈ turn.flatten ↔ CompleteTurn turn := by
  constructor
  · intro found
    obtain ⟨chunk, member, inside⟩ := List.mem_flatten.mp found
    rcases List.eq_nil_or_concat turn with rfl | ⟨earlier, last, rfl⟩
    · cases member
    · rw [List.concat_eq_append] at member pending ⊢
      rw [List.dropLast_concat] at pending
      refine ⟨earlier, last, rfl, ?_⟩
      rcases List.mem_append.mp member with before | same
      · have continues := pending chunk before
        rw [hasNewline_iff.mpr inside] at continues
        cases continues
      · rw [← List.mem_singleton.mp same]
        exact hasNewline_iff.mpr inside
  · rintro ⟨earlier, last, rfl, finished⟩
    exact List.mem_flatten.mpr ⟨last, List.mem_append_right _ (List.mem_singleton_self _),
      hasNewline_iff.mp finished⟩

theorem continues_of_not_complete {turn : List (List Byte)}
    (pending : ∀ chunk ∈ turn.dropLast, hasNewline chunk = false)
    (incomplete : ¬ CompleteTurn turn) : ∀ chunk ∈ turn, hasNewline chunk = false := by
  intro chunk member
  rw [Bool.eq_false_iff, ne_eq, hasNewline_iff]
  intro inside
  exact incomplete ((completeTurn_iff pending).mp (List.mem_flatten.mpr ⟨chunk, member, inside⟩))

theorem place_scan {thread : Thread} {turn : List (List Byte)}
    (pending : ∀ chunk ∈ turn.dropLast, hasNewline chunk = false)
    (noNul : ∀ chunk ∈ turn, (0 : Byte) ∉ chunk) (holds : HoldsTurn thread turn Sized) :
    Place thread.scan turn := by
  obtain ⟨block, tail, holding, sized, zeros⟩ := holds
  obtain ⟨held, sizedAfter, pc⟩ := holding.scan sized
  have zerosAfter : ∀ byte ∈ tail.dropLast ++ [0], byte = 0 := by
    intro byte member
    rcases List.mem_append.mp member with before | last
    · exact zeros byte ((List.dropLast_sublist tail).subset before)
    · exact List.mem_singleton.mp last
  have clean := zero_notMem_flatten noNul
  have holdsAfter : HoldsTurn thread.scan turn Sized :=
    ⟨block, _, held, sizedAfter, zerosAfter⟩
  rw [cString_zeros clean held.room zerosAfter] at pc
  by_cases finished : newline ∈ turn.flatten
  · rw [if_pos finished] at pc
    rw [Place, pc]
    exact ⟨(completeTurn_iff pending).mp finished, holdsAfter⟩
  · rw [if_neg finished] at pc
    rw [Place, pc]
    exact ⟨continues_of_not_complete pending (mt (completeTurn_iff pending).mpr finished), holdsAfter⟩

theorem advance_text {thread : Thread} (isSeek : kIOCtrlStr.isPrefixOf thread.text = true) :
    thread.advance.text = thread.text.drop kIOCtrlStr.length := by
  have long : kIOCtrlStr.length ≤ thread.text.length :=
    (List.isPrefixOf_iff_prefix.mp isSeek).length_le
  have moved : thread.advance.bytesAt thread.advance.recvBuffer =
      (thread.bytesAt thread.recvBuffer).drop kIOCtrlStr.length := by
    unfold Thread.advance Thread.bytesAt
    cases thread.recvBuffer with
    | none => rfl
    | some pointer => exact (List.drop_drop ..).symm
  rw [Thread.text, moved]
  exact cString_drop long

theorem dispatch_eq (thread : Thread) : thread.dispatch =
    match operationOf thread.text with
    | none => { thread.advance with pc := .crashed }
    | some (.write _) => { thread with pc := .write }
    | some (.seek seekto) => { thread.advance with seekto, pc := .ioctl } := by
  unfold Thread.dispatch operationOf
  by_cases isSeek : kIOCtrlStr.isPrefixOf thread.text = true
  · rw [if_pos isSeek, if_pos isSeek, advance_text isSeek]
    cases parseSeekto (thread.text.drop kIOCtrlStr.length) <;> rfl
  · rw [if_neg isSeek, if_neg isSeek]

/-- The choice performs what the payload means. -/
theorem place_dispatch {thread : Thread} {turn : List (List Byte)}
    (noNul : ∀ chunk ∈ turn, (0 : Byte) ∉ chunk) (complete : CompleteTurn turn)
    (holds : HoldsTurn thread turn Sized) : Place thread.dispatch turn := by
  obtain ⟨block, tail, holding, _, zeros⟩ := holds
  have clean := zero_notMem_flatten noNul
  have text : thread.text = turn.flatten := by
    rw [holding.text, cString_zeros clean holding.room zeros]
  rw [dispatch_eq, text]
  cases means : operationOf turn.flatten with
  | none => exact ⟨complete, means⟩
  | some operation =>
    cases operation with
    | write payload =>
      refine ⟨complete, .write thread.text, rfl, ?_⟩
      rw [means, text, (operationOf_eq_write.mp means).1]
    | seek seekto => exact ⟨complete, .seek seekto, rfl, means⟩

theorem HoldsTurn.move {thread : Thread} {turn : List (List Byte)}
    (holds : HoldsTurn thread turn Sized) (pc : Pc) : HoldsTurn { thread with pc } turn Sized := by
  obtain ⟨block, tail, holding, sized, zeros⟩ := holds
  exact ⟨block, tail, ⟨holding.pointed, holding.cells, holding.room, holding.index, holding.small,
    holding.aligned⟩, sized, zeros⟩

theorem place_chooseOffset (thread : Thread) : Place thread.chooseOffset [] := by
  unfold Thread.chooseOffset
  split <;> rfl

namespace Framed

variable {past : List (Event × Syscall)} {thread after : Thread} {event : Event}
variable {call : Syscall} {done turn : List (List Byte)}

theorem start : Framed [] Thread.start [] [] where
  received := rfl
  closed := rfl
  pending := nofun
  performed := rfl
  noNul := nofun
  place := rfl

theorem quiet (framed : Framed past thread done turn) (noChunk : event.chunk = none)
    (noOperation : call.operation = none) (place : Place after turn) :
    Framed (past ++ [(event, call)]) after done turn where
  received := by
    simpa [chunks, noChunk] using framed.received
  closed := framed.closed
  pending := framed.pending
  performed := by
    simpa [operations, noOperation] using framed.performed
  noNul := framed.noNul
  place := place

theorem finish (framed : Framed past thread done turn) (noChunk : event.chunk = none)
    (complete : CompleteTurn turn) {operation : DeviceOperation}
    (asked : call.operation = some operation) (means : operationOf turn.flatten = some operation)
    (place : Place after []) : Framed (past ++ [(event, call)]) after (done ++ turn) [] := by
  obtain ⟨closed, appended⟩ := payloads_append_complete framed.closed framed.pending complete
  refine ⟨?_, closed, nofun, ?_, nofun, place⟩
  · simpa [chunks, noChunk] using framed.received
  · have earlier := framed.performed
    rw [operations] at earlier
    rw [appended, List.map_append, earlier, List.map_singleton, means, operations]
    simp [asked]

theorem join (framed : Framed past thread done turn) {chunk : List Byte}
    (isChunk : event.chunk = some chunk) (noOperation : call.operation = none)
    (continues : ∀ chunk ∈ turn, hasNewline chunk = false) (noNul : (0 : Byte) ∉ chunk)
    (place : Place after (turn ++ [chunk])) :
    Framed (past ++ [(event, call)]) after done (turn ++ [chunk]) where
  received := by
    have earlier := framed.received
    rw [chunks] at earlier
    rw [chunks, List.filterMap_append, earlier, List.append_assoc]
    simp [isChunk]
  closed := framed.closed
  pending := by
    rw [List.dropLast_concat]
    exact continues
  performed := by
    simpa [operations, noOperation] using framed.performed
  noNul := by
    intro other member
    rcases List.mem_append.mp member with earlier | same
    · exact framed.noNul other earlier
    · rw [List.mem_singleton.mp same]
      exact noNul
  place := place

theorem receive (framed : Framed past thread done turn) (receiving : thread.pc = .recv)
    {data : List Byte} (fits : data.length ≤ sizeT thread.recvWindow) (noNul : (0 : Byte) ∉ data)
    (noOperation : call.operation = none) :
    Framed (past ++ [(.recv (some data), call)]) (thread.receive data) done (turn ++ [data]) := by
  have place := framed.place
  rw [Place, receiving] at place
  obtain ⟨continues, block, tail, holding, sized, zeros⟩ := place
  have zerosAfter : ∀ byte ∈ tail.drop data.length, byte = 0 :=
    fun byte member => zeros byte (List.mem_of_mem_drop member)
  have flatten : (turn ++ [data]).flatten = turn.flatten ++ data := by
    rw [List.flatten_append, List.flatten_singleton]
  have pending : ∀ chunk ∈ (turn ++ [data]).dropLast, hasNewline chunk = false := by
    rw [List.dropLast_concat]
    exact continues
  have clean : ∀ chunk ∈ turn ++ [data], (0 : Byte) ∉ chunk := by
    intro other member
    rcases List.mem_append.mp member with earlier | same
    · exact framed.noNul other earlier
    · rw [List.mem_singleton.mp same]
      exact noNul
  refine framed.join rfl noOperation continues noNul ?_
  obtain ⟨less, grows | ⟨middle, same, held, sizedAfter, _⟩⟩ := holding.receive sized fits
  · obtain ⟨held, size, pc, filled⟩ := grows
    rw [Place, pc]
    refine ⟨block, _, flatten ▸ held, ?_, zerosAfter⟩
    rw [Ahead, size, Int32.toInt_add, sized, flatten, List.length_append, List.length_drop]
    have constant : kBufferStartLength.toInt = 128 := rfl
    rw [constant]
    congr 1
    omega
  · rw [same]
    exact place_scan pending clean ⟨block, _, flatten ▸ held, flatten ▸ sizedAfter, zerosAfter⟩

theorem grow (framed : Framed past thread done turn) (growing : thread.pc = .realloc)
    {fresh : List Byte} (zeroed : (Event.realloc (some fresh)).zeroed = true)
    (possible : sizeT thread.bufferSize < 2 ^ 63)
    (total : (thread.bytesAt thread.recvBuffer).length + fresh.length = sizeT thread.bufferSize)
    (noOperation : call.operation = none) :
    Framed (past ++ [(.realloc (some fresh), call)]) (thread.grow fresh) done turn := by
  have place := framed.place
  rw [Place, growing] at place
  obtain ⟨block, tail, holding, ahead, zeros⟩ := place
  obtain ⟨middle, same, held, sized⟩ := holding.grow ahead possible total
  have zerosAfter : ∀ byte ∈ tail ++ fresh, byte = 0 := by
    intro byte member
    rcases List.mem_append.mp member with old | new
    · exact zeros byte old
    · exact eq_of_beq (List.all_eq_true.mp zeroed byte new)
  refine framed.quiet rfl noOperation ?_
  rw [same]
  exact place_scan framed.pending framed.noNul ⟨_, _, held, sized, zerosAfter⟩

theorem step (framed : Framed past thread done turn)
    (taken : thread.step event = some (call, after)) (zeroed : event.zeroed = true)
    (noNul : ∀ chunk, event.chunk = some chunk → (0 : Byte) ∉ chunk) :
    ∃ finished current, Framed (past ++ [(event, call)]) after finished current := by
  obtain ⟨waiting, resumes⟩ := Thread.step_cases taken
  have same := (Thread.step_eq_some_iff.mp taken).2.1
  have asked := same
  have place := framed.place
  rw [Place, waiting] at place
  rw [Thread.syscall, waiting] at asked
  cases resumes with
  | callocRecvFails =>
    obtain rfl : turn = [] := place
    exact ⟨done, [], framed.quiet rfl (by rw [asked]; rfl) trivial⟩
  | callocRecv =>
    obtain rfl : turn = [] := place
    refine ⟨done, [], framed.quiet rfl (by rw [asked]; rfl) ⟨nofun, _, _, Holding.start, ?_, ?_⟩⟩
    · rw [Sized, List.length_replicate]
      rfl
    · exact fun byte member => List.eq_of_mem_replicate member
  | stays =>
    exact ⟨done, turn, framed.quiet rfl (by rw [asked]; rfl) ⟨place.1, place.2.move .recv⟩⟩
  | recv fits =>
    exact ⟨done, _, framed.receive waiting fits (noNul _ rfl) (by rw [asked]; rfl)⟩
  | realloc possible total =>
    exact ⟨done, turn, framed.grow waiting zeroed possible total (by rw [asked]; rfl)⟩
  | lock =>
    exact ⟨done, turn, framed.quiet rfl (by rw [asked]; rfl) ⟨place.1, place.2.move .openDevice⟩⟩
  | openDevice =>
    exact ⟨done, turn, framed.quiet rfl (by rw [asked]; rfl)
      (place_dispatch framed.noNul place.1 place.2)⟩
  | ioctl | write =>
    obtain ⟨complete, operation, pending, means⟩ := place
    exact ⟨_, [], framed.finish rfl complete (same ▸ pending) means (place_chooseOffset thread)⟩
  | ioctlFails =>
    obtain ⟨complete, operation, pending, means⟩ := place
    exact ⟨_, [], framed.finish rfl complete (same ▸ pending) means rfl⟩
  | writeFails =>
    obtain ⟨complete, operation, pending, means⟩ := place
    exact ⟨_, [], framed.finish rfl complete (same ▸ pending) means trivial⟩
  | exits | recvFails | reallocFails | callocSendFails | readFails | sendFails | unlockFailed
  | unlockExit =>
    exact ⟨done, turn, framed.quiet rfl (by rw [asked]; rfl) trivial⟩
  | lseekCur | lseekEndFails | lseekEnd | lseekSet | callocSend | readEnds | read | send | close
  | unlock =>
    exact ⟨done, turn, framed.quiet rfl (by rw [asked]; rfl) place⟩

end Framed

theorem run_framed {trace : List (Event × Syscall)} {thread : Thread}
    (run : process.Run Thread.start trace thread) (zeroed : ∀ step ∈ trace, step.1.zeroed = true)
    (noNul : ∀ chunk ∈ chunks trace, (0 : Byte) ∉ chunk) :
    ∃ done turn, Framed trace thread done turn := by
  refine run.history (fun past thread => (∀ step ∈ past, step.1.zeroed = true) →
    (∀ chunk ∈ chunks past, (0 : Byte) ∉ chunk) → ∃ done turn, Framed past thread done turn)
    (fun _ _ => ⟨[], [], Framed.start⟩) ?_ zeroed noNul
  intro past thread event call after known taken zeroed noNul
  obtain ⟨done, turn, framed⟩ := known
    (fun step member => zeroed step (List.mem_append_left _ member))
    (fun chunk member => noNul chunk (by
      rw [chunks, List.filterMap_append]
      exact List.mem_append_left _ member))
  refine framed.step taken
    (zeroed (event, call) (List.mem_append_right _ (List.mem_singleton_self _))) ?_
  intro chunk isChunk
  refine noNul chunk (List.mem_filterMap.mpr ⟨(event, call), ?_, isChunk⟩)
  exact List.mem_append_right _ (List.mem_singleton_self _)

/-- Places where no payload waits for its operation. -/
def Pc.awaitsMessage : Pc → Bool
  | .callocRecv | .checkExit | .recv => true
  | _ => false

/-- Chunks that hold a newline at most at their end make payloads of whole lines. -/
theorem payloads_of_lastOnly {chunks : List (List Byte)}
    (lastOnly : ∀ chunk ∈ chunks, newline ∉ chunk.dropLast) :
    payloads chunks = lines chunks.flatten := by
  have continues : ∀ chunk ∈ chunks, ∀ byte ∈ chunk.dropLast, (byte == newline) = false := by
    intro chunk member byte inside
    rw [beq_eq_false_iff_ne]
    rintro rfl
    exact lastOnly chunk member inside
  rw [lines, cut_pieces continues]
  rfl

/-- The operations of a run are those its payloads mean, in order, up to one payload
at the end that is not performed yet or never will be. Where chunks end in their
only newline the payloads are the lines of the stream. -/
theorem operations_follow_payloads {trace : List (Event × Syscall)} {thread : Thread}
    (run : process.Run Thread.start trace thread) (zeroed : ∀ step ∈ trace, step.1.zeroed = true)
    (noNul : ∀ chunk ∈ chunks trace, (0 : Byte) ∉ chunk) :
    (∃ rest, (payloads (chunks trace)).map operationOf = (operations trace).map some ++ rest ∧
        rest.length ≤ 1) ∧
      (thread.pc.awaitsMessage = true →
        (payloads (chunks trace)).map operationOf = (operations trace).map some) ∧
      ((∀ chunk ∈ chunks trace, newline ∉ chunk.dropLast) →
        payloads (chunks trace) = lines (chunks trace).flatten) := by
  obtain ⟨done, turn, framed⟩ := run_framed run zeroed noNul
  have performed := framed.performed
  refine ⟨?_, ?_, payloads_of_lastOnly⟩
  · rw [framed.received]
    by_cases complete : CompleteTurn turn
    · rw [(payloads_append_complete framed.closed framed.pending complete).2, List.map_append,
        performed]
      exact ⟨_, rfl, le_rfl⟩
    · rw [payloads_append_open (continues_of_not_complete framed.pending complete), performed]
      exact ⟨[], (List.append_nil _).symm, Nat.zero_le _⟩
  · intro awaits
    have continues : ∀ chunk ∈ turn, hasNewline chunk = false := by
      have place := framed.place
      rw [Place] at place
      cases pc : thread.pc with
      | callocRecv =>
        rw [pc] at place
        obtain rfl : turn = [] := place
        exact nofun
      | checkExit =>
        rw [pc] at place
        exact place.1
      | recv =>
        rw [pc] at place
        exact place.1
      | _ =>
        rw [pc] at awaits
        cases awaits
    rw [framed.received, payloads_append_open continues, performed]

/-- A line whose first piece fills the buffer, then a seek command in two pieces. -/
def splitTurns : List Event :=
  [.callocRecv true, .checkExit false, .recv (some (List.replicate 127 97)),
   .realloc (some (List.replicate 128 0)), .checkExit false, .recv (some [98, newline]), .lock,
   .openDevice (some 3), .write (some 129), .lseekEnd 129, .lseekSet 0, .callocSend true,
   .read (some []), .close false, .unlock false,
   .callocRecv true, .checkExit false, .recv (some kIOCtrlStr), .checkExit false,
   .recv (some [49, comma, 48, newline]), .lock, .openDevice (some 3), .ioctl true, .lseekCur 0,
   .lseekEnd 129, .lseekSet 0, .callocSend true, .read (some []), .close false, .unlock false]

theorem splitTurns_operations : ∃ trace thread,
    process.exec Thread.start splitTurns = some (trace, thread) ∧
      operations trace = [.write (List.replicate 127 97 ++ [98, newline]), .seek ⟨1, 0⟩] := by
  have runs : ((process.exec Thread.start splitTurns).any fun result =>
      result.1.all (·.1.zeroed) && (chunks result.1 ==
        [List.replicate 127 97, [98, newline], kIOCtrlStr, [49, comma, 48, newline]]) &&
          (result.2.pc == .callocRecv)) = true := by decide +kernel
  obtain ⟨⟨trace, thread⟩, computed, facts⟩ := (Option.any_eq_true _ _).mp runs
  simp only [Bool.and_eq_true, List.all_eq_true, beq_iff_eq] at facts
  obtain ⟨⟨zeroed, received⟩, waits⟩ := facts
  have noNul : ∀ chunk ∈ chunks trace, (0 : Byte) ∉ chunk := by
    rw [received]
    decide
  have follows := (operations_follow_payloads (Machine.Run.of_exec computed) zeroed noNul).2.1
    (by rw [waits]; rfl)
  have means : (payloads [List.replicate 127 97, [98, newline], kIOCtrlStr,
      [49, comma, 48, newline]]).map operationOf =
        [.write (List.replicate 127 97 ++ [98, newline]), .seek ⟨1, 0⟩].map some := by
    decide +kernel
  rw [received, means] at follows
  refine ⟨trace, thread, computed, ?_⟩
  exact (List.map_injective_iff.mpr (Option.some_injective _) follows).symm

/-- The events of one turn with an ordinary payload received in one piece. -/
def lineTurn (payload : List Byte) : List Event :=
  [.callocRecv true, .checkExit false, .recv (some payload), .lock, .openDevice (some 3),
   .write (some payload.length), .lseekEnd 4, .lseekSet 0, .callocSend true, .read (some []),
   .close false, .unlock false]

/-- Two lines that arrive in one piece are written as one. -/
theorem lines_merged :
    ¬ ∀ first second : List (Event × Syscall), ∀ firstThread secondThread : Thread,
      process.Run Thread.start first firstThread → process.Run Thread.start second secondThread →
      (∀ step ∈ first ++ second, step.1.zeroed = true) →
      (∀ chunk ∈ chunks first ++ chunks second, chunk ≠ [] ∧ (0 : Byte) ∉ chunk) →
      (chunks first).flatten = (chunks second).flatten →
      firstThread.pc = .callocRecv → secondThread.pc = .callocRecv →
        operations first = operations second := by
  intro always
  have one : ((process.exec Thread.start (lineTurn [97, newline, 98, newline])).any fun result =>
      result.1.all (·.1.zeroed) && (chunks result.1 == [[97, newline, 98, newline]]) &&
        (operations result.1 == [.write [97, newline, 98, newline]]) &&
          (result.2.pc == .callocRecv)) = true := by decide
  have two : ((process.exec Thread.start
      (lineTurn [97, newline] ++ lineTurn [98, newline])).any fun result =>
      result.1.all (·.1.zeroed) && (chunks result.1 == [[97, newline], [98, newline]]) &&
        (operations result.1 == [.write [97, newline], .write [98, newline]]) &&
          (result.2.pc == .callocRecv)) = true := by decide
  obtain ⟨⟨first, firstThread⟩, firstRun, facts⟩ := (Option.any_eq_true _ _).mp one
  obtain ⟨⟨second, secondThread⟩, secondRun, secondFacts⟩ := (Option.any_eq_true _ _).mp two
  simp only [Bool.and_eq_true, List.all_eq_true, beq_iff_eq] at facts secondFacts
  obtain ⟨⟨⟨zeroed, received⟩, asked⟩, waits⟩ := facts
  obtain ⟨⟨⟨secondZeroed, secondReceived⟩, secondAsked⟩, secondWaits⟩ := secondFacts
  have same := always first second firstThread secondThread (Machine.Run.of_exec firstRun)
    (Machine.Run.of_exec secondRun)
    (fun step member => (List.mem_append.mp member).elim (zeroed step) (secondZeroed step))
    (by rw [received, secondReceived]; decide) (by rw [received, secondReceived]; rfl)
    waits secondWaits
  rw [asked, secondAsked] at same
  exact absurd same (by decide)

end Aesd.Server
