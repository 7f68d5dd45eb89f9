import MessageSchema.Plugin.Host
import MessageSchema.Proofs.Export.JsonRoundTrip

namespace MessageSchema.Plugin

/-!
# Responses behind their length

What a code generator answers is read back from its frame, whatever bytes follow, and
no beginning of the frame is read as an answer.
-/

open Data (Value)
open Data.Json (Plain nodeOf)
open Export (listOr optionalMember)
open Export.FromJson (Sets isNamed_eq text_ofString list_listOr)

lemma outputFile_nodeOf (file : OutputFile) : outputFile {} (nodeOf file.data) = some file := by
  rcases file with ⟨path, content⟩
  have parts : Export.FromJson.list "" Export.FromJson.text none
      (nodeOf (listOr .null .ofString path)) = some (path.map (List.map id)) :=
    list_listOr fun _ _ part _ => text_ofString "" part
  rw [List.map_id_fun, Option.map_id] at parts
  have isPath : Sets outputFile [("path", listOr .null .ofString path)] {} { path } :=
    .member (by simp (disch := decide) [isNamed_eq, parts])
  have isContent : Sets outputFile [("content", .ofString content)] { path }
      { path, content } :=
    .member (by simp (disch := decide) [isNamed_eq, text_ofString])
  exact (isPath.append isContent).complete

/-- The data of a response. -/
def Response.data (response : Response) : Value :=
  .record (optionalMember (response.error != "") "error" (.ofString response.error)
    ++ [("files", listOr .null OutputFile.data response.files)])

lemma response_nodeOf (value : Response) : response {} (nodeOf value.data) = some value := by
  rcases value with ⟨error, files⟩
  have each : Export.FromJson.list {} outputFile none
      (nodeOf (listOr .null OutputFile.data files)) = some (files.map (List.map id)) :=
    list_listOr fun _ _ file _ => outputFile_nodeOf file
  rw [List.map_id_fun, Option.map_id] at each
  have isError : Sets response (optionalMember (error != "") "error" (.ofString error)) {}
      { error } := by
    refine .optional (fun _ => .member ?_) fun empty => ?_
    · simp (disch := decide) [isNamed_eq, text_ofString]
    · rw [bne_eq_false_iff_eq.mp empty]
  have isFiles : Sets response [("files", listOr .null OutputFile.data files)] { error }
      { error, files } :=
    .member (by simp (disch := decide) [isNamed_eq, each])
  exact (isError.append isFiles).complete

lemma Response.plain (response : Response) : Plain 4 response.data := by
  refine .record fun entry member => ?_
  rcases List.mem_append.mp member with member | member
  · rw [Export.mem_optionalMember member]
    exact .text _
  · rw [List.mem_singleton.mp member]
    refine Export.plain_listOr fun files _ file _ => .record fun entry member => ?_
    simp only [List.mem_cons, List.not_mem_nil, or_false] at member
    rcases member with rfl | rfl
    · exact Export.plain_listOr fun _ _ part _ => .text _
    · exact .text _

lemma Response.ofBody_json (response : Response) :
    Response.ofBody (Text.utf8 response.json) = .ok response := by
  have read : Data.Json.readWhole (Text.utf8 response.json) = .ok (nodeOf response.data) :=
    Data.Json.readWhole_compact response.plain.writable
      (response.plain.height.trans (by decide))
  rw [Response.ofBody, read]
  dsimp only
  rw [response_nodeOf]

lemma length_wordBytes (number : ℕ) : (wordBytes number).length = 4 :=
  rfl

lemma Response.ofFrame_short {bytes : List UInt8} (short : bytes.length < 4) :
    Response.ofFrame bytes = .error (.truncated bytes.length) := by
  unfold Response.ofFrame
  split
  · simp only [List.length_cons] at short
    omega
  · rfl

lemma Response.ofFrame_wordBytes {length : ℕ} (small : length < wordCount) (rest : List UInt8) :
    Response.ofFrame (wordBytes length ++ rest) =
      if rest.length < length then .error (.tooLong length rest.length)
      else Response.ofBody (rest.take length) := by
  have word : ofWordBytes (UInt8.ofNat length) (UInt8.ofNat (length / 256))
      (UInt8.ofNat (length / 65536)) (UInt8.ofNat (length / 16777216)) = length := by
    simp only [ofWordBytes, UInt8.toNat_ofNat', wordCount] at small ⊢
    omega
  rw [wordBytes, List.cons_append, List.cons_append, List.cons_append, List.cons_append,
    List.nil_append, Response.ofFrame, word]

/-- A response whose body is not too long is read back from its frame with anything behind
it, and no proper beginning of the frame is accepted. -/
theorem framed_response_is_unambiguous (response : Response)
    (short : (Text.utf8 response.json).length < wordCount - 4) :
    (∀ trailing, Response.ofFrame (response.frame ++ trailing) = .ok response) ∧
    ∀ cut < response.frame.length, ∃ error,
      Response.ofFrame (response.frame.take cut) = .error error := by
  have small : (Text.utf8 response.json).length < wordCount := by
    rw [wordCount] at short ⊢
    omega
  refine ⟨fun trailing => ?_, fun cut isCut => ?_⟩
  · have fits : ¬ (Text.utf8 response.json ++ trailing).length <
        (Text.utf8 response.json).length := by
      rw [List.length_append]
      omega
    rw [Response.frame, List.append_assoc, Response.ofFrame_wordBytes small, if_neg fits,
      List.take_left, Response.ofBody_json]
  · rcases Nat.lt_or_ge cut 4 with early | late
    · refine ⟨_, Response.ofFrame_short (Nat.lt_of_le_of_lt ?_ early)⟩
      exact List.length_take_le _ _
    · rw [Response.frame, List.length_append, length_wordBytes] at isCut
      have missing : ((Text.utf8 response.json).take (cut - 4)).length <
          (Text.utf8 response.json).length := by
        rw [List.length_take]
        omega
      rw [Response.frame, List.take_append, length_wordBytes,
        List.take_of_length_le (show (wordBytes _).length <= cut from late),
        Response.ofFrame_wordBytes small, if_pos missing]
      exact ⟨_, rfl⟩

theorem answer_with_empty_list_is_read_back :
    (Text.utf8 (Response.mk "late" (some [])).json).length < wordCount - 4 ∧
      Response.ofFrame ((Response.mk "late" (some [])).frame ++ [255, 255]) =
        .ok ⟨"late", some []⟩ :=
  have short : (Text.utf8 (Response.mk "late" (some [])).json).length < wordCount - 4 := by
    decide +kernel
  ⟨short, (framed_response_is_unambiguous _ short).1 [255, 255]⟩

/-!
# What a code generator answers

A code generator is run on a request, and stores the address of its response in a word.
What stands in that word, at that address and behind it can be anything.  The body that is
read is nevertheless exactly the one that its length tells of.
-/

namespace Memory

variable {memory : Memory} {address length : Nat}

lemma length_of_read? {bytes : List UInt8} (read : memory.read? address length = some bytes) :
    bytes.length = length := by
  unfold read? at read
  split at read
  · cases read
    rw [List.length_map, List.length_range]
  · cases read

lemma lt_of_word? (word : memory.word? address = some length) : length < wordCount := by
  unfold word? at word
  split at word
  · cases word
    have := (memory.byte address).toNat_lt
    have := (memory.byte (address + 1)).toNat_lt
    have := (memory.byte (address + 2)).toNat_lt
    have := (memory.byte (address + 3)).toNat_lt
    rw [wordCount]
    omega
  · cases word

/-- The bytes of a word, together with those behind it. -/
lemma read?_with_word (memory : Memory) (address length : Nat) :
    memory.read? address (4 + length) = (memory.read? (address + 4) length).map
      ([memory.byte address, memory.byte (address + 1), memory.byte (address + 2),
        memory.byte (address + 3)] ++ ·) := by
  unfold read?
  rw [Nat.add_assoc]
  split
  · rw [List.range_add, List.map_append, List.map_map, Option.map_some]
    simp only [Function.comp_def, ← Nat.add_assoc]
    rfl
  · rfl

end Memory

variable {memory : Memory} {slot address length : Nat}

/-- The length in front of a body is the word that tells how much of the memory is read. -/
lemma Response.ofFrame_of_word? {body : List UInt8} (word : memory.word? address = some length)
    (read : memory.read? (address + 4) length = some body) :
    Response.ofFrame ([memory.byte address, memory.byte (address + 1), memory.byte (address + 2),
      memory.byte (address + 3)] ++ body) = Response.ofBody body := by
  have isLength : ofWordBytes (memory.byte address) (memory.byte (address + 1))
      (memory.byte (address + 2)) (memory.byte (address + 3)) = length := by
    unfold Memory.word? at word
    split at word
    · exact Option.some.inj word
    · cases word
  simp only [List.cons_append, List.nil_append, Response.ofFrame, isLength]
  rw [← Memory.length_of_read? read, if_neg (Nat.lt_irrefl _), List.take_length]

/-- The address in a word leads to a length, and all bytes that it tells of are there. -/
def Memory.Holds (memory : Memory) (slot : Nat) (body : List UInt8) : Prop :=
  ∃ address length, memory.word? slot = some address ∧ memory.word? address = some length ∧
    4 + length < wordCount ∧ memory.read? (address + 4) length = some body

/-- A response is read exactly if its body is held.  A length that wraps around makes the
frame shorter than the length itself. -/
lemma Response.ofMemory_eq_ok_iff {response : Response} :
    Response.ofMemory memory slot = .ok response ↔
      ∃ body, memory.Holds slot body ∧ Response.ofBody body = .ok response := by
  constructor
  · intro answered
    unfold Response.ofMemory at answered
    split at answered
    · cases answered
    · next address stored =>
      split at answered
      · cases answered
      · next length word =>
        split at answered
        · cases answered
        · next bytes read =>
          split at answered
          · cases answered
          · next found framed =>
            cases answered
            by_cases fits : 4 + length < wordCount
            · rw [Nat.mod_eq_of_lt fits, Memory.read?_with_word] at read
              rcases Option.map_eq_some_iff.mp read with ⟨body, isRead, rfl⟩
              rw [Response.ofFrame_of_word? word isRead] at framed
              exact ⟨body, ⟨address, length, stored, word, fits, isRead⟩, framed⟩
            · have wrapped : bytes.length < 4 := by
                have := Memory.lt_of_word? word
                rw [Memory.length_of_read? read]
                unfold wordCount at *
                omega
              rw [Response.ofFrame_short wrapped] at framed
              cases framed
  · rintro ⟨body, ⟨address, length, stored, word, fits, read⟩, decoded⟩
    simp only [Response.ofMemory, stored, word, Nat.mod_eq_of_lt fits, Memory.read?_with_word, read,
      Option.map_some, Response.ofFrame_of_word? word read, decoded]

/-- A code generator has been run on a request: it had room for the request and a word, and
ended with a status and a memory. -/
def Generator.Ends (generator : Generator) (request : List UInt8) (slot status : Nat)
    (memory : Memory) : Prop :=
  ∃ address roomy written ready, generator.room generator.memory request.length =
      .ok (address, roomy) ∧ roomy.write? address request = some written ∧
    generator.room written 4 = .ok (slot, ready) ∧
    generator.generate ready address (request.length % wordCount) slot = .ok (status, memory)

variable {generator : Generator} {request : List UInt8} {status : Nat}

lemma Generator.Ends.respond (ends : generator.Ends request slot status memory) :
    generator.respond request = (Response.ofMemory memory slot).map (·.withStatus status) := by
  rcases ends with ⟨address, roomy, written, ready, room, write, word, generate⟩
  simp only [Generator.respond, room, write, word, generate, bind, Except.bind]
  cases Response.ofMemory memory slot <;> rfl

lemma Generator.ends_of_respond {response : Response}
    (answered : generator.respond request = .ok response) :
    ∃ slot status memory, generator.Ends request slot status memory := by
  simp only [Generator.respond, bind, Except.bind] at answered
  split at answered
  · cases answered
  · next found room =>
    split at answered
    · cases answered
    · next written write =>
      split at answered
      · cases answered
      · next slot word =>
        split at answered
        · cases answered
        · next status memory generate =>
          exact ⟨slot.1, status, memory, found.1, found.2, written, slot.2, room, write, word,
            generate⟩

/-- A code generator answers exactly if it ends with a body in its memory that can be read. -/
lemma Generator.respond_eq_ok_iff {response : Response} :
    generator.respond request = .ok response ↔ ∃ slot status memory answer,
      generator.Ends request slot status memory ∧ Response.ofMemory memory slot = .ok answer ∧
      response = answer.withStatus status := by
  constructor
  · intro answered
    rcases Generator.ends_of_respond answered with ⟨slot, status, memory, ends⟩
    rw [ends.respond] at answered
    cases read : Response.ofMemory memory slot with
    | error => rw [read] at answered; cases answered
    | ok answer =>
      rw [read] at answered
      cases answered
      exact ⟨slot, status, memory, answer, ends, read, rfl⟩
  · rintro ⟨slot, status, memory, answer, ends, read, rfl⟩
    rw [ends.respond, read]
    rfl

/-- A code generator answers exactly if the bytes that the length tells of all exist behind
it, and then these bytes are what is decoded.  A length that does not fit in a word together
with its own four bytes always makes the call fail. -/
theorem body_is_as_long_as_told (generator : Generator) (request : List UInt8) :
    (∀ response, generator.respond request = .ok response ↔
      ∃ slot status memory body answer, generator.Ends request slot status memory ∧
        memory.Holds slot body ∧ Response.ofBody body = .ok answer ∧
        response = answer.withStatus status) ∧
    ∀ slot status memory address length, generator.Ends request slot status memory ->
      memory.word? slot = some address -> memory.word? address = some length ->
      wordCount <= 4 + length -> ∃ error, generator.respond request = .error error := by
  refine ⟨fun response => ?_, fun slot status memory address length ends stored word wraps => ?_⟩
  · rw [Generator.respond_eq_ok_iff]
    constructor
    · rintro ⟨slot, status, memory, answer, ends, read, isResponse⟩
      rcases Response.ofMemory_eq_ok_iff.mp read with ⟨body, holds, decoded⟩
      exact ⟨slot, status, memory, body, answer, ends, holds, decoded, isResponse⟩
    · rintro ⟨slot, status, memory, body, answer, ends, holds, decoded, isResponse⟩
      exact ⟨slot, status, memory, answer, ends,
        Response.ofMemory_eq_ok_iff.mpr ⟨body, holds, decoded⟩, isResponse⟩
  · rw [ends.respond]
    cases read : Response.ofMemory memory slot with
    | error reason => exact ⟨reason, rfl⟩
    | ok answer =>
      rcases Response.ofMemory_eq_ok_iff.mp read with
        ⟨body, ⟨other, told, alsoStored, alsoWord, fits, -⟩, -⟩
      cases stored.symm.trans alsoStored
      cases word.symm.trans alsoWord
      exact absurd fits (Nat.not_lt.mpr wraps)

/-- A code generator whose response has the largest length but one. -/
def hostile : Generator where
  memory.size := 12
  memory.byte place :=
    if place = 4 then 8 else if place = 8 then 254 else if 8 < place then 255 else 0
  allocate memory _ := .ok (4, memory)
  generate memory _ _ _ := .ok (0, memory)

theorem wrapping_length_is_refused : ∃ memory error, hostile.Ends [] 4 0 memory ∧
    memory.word? 4 = some 8 ∧ memory.word? 8 = some 4294967294 ∧
    hostile.respond [] = .error error := by
  have ends : hostile.Ends [] 4 0 _ := ⟨4, _, _, _, rfl, rfl, rfl, rfl⟩
  rcases (body_is_as_long_as_told hostile []).2 4 0 _ 8 4294967294 ends rfl rfl (by decide) with
    ⟨error, failed⟩
  exact ⟨_, error, ends, rfl, rfl, failed⟩

end MessageSchema.Plugin
