import MessageSchema.Plugin.Exchange

namespace MessageSchema.Plugin

/-!
The memory of a plugin.

Addresses and words have 32 bits, the lowest byte first.  What lies outside is
neither read nor written, not even in part.
-/

structure Memory where
  size : Nat
  byte : Nat -> UInt8

namespace Memory

def zeros (size : Nat) : Memory := ⟨size, fun _ => 0⟩

def read? (memory : Memory) (address length : Nat) : Option (List UInt8) :=
  if address + length <= memory.size then
    some ((List.range length).map fun offset => memory.byte (address + offset))
  else none

def word? (memory : Memory) (address : Nat) : Option Nat :=
  if address + 4 <= memory.size then
    some ((memory.byte address).toNat + 256 * (memory.byte (address + 1)).toNat
      + 65536 * (memory.byte (address + 2)).toNat + 16777216 * (memory.byte (address + 3)).toNat)
  else none

def write? (memory : Memory) (address : Nat) (bytes : List UInt8) : Option Memory :=
  if address + bytes.length <= memory.size then
    let held := bytes.toArray
    some { memory with
      byte := fun place =>
        if address <= place then (held[place - address]?).getD (memory.byte place)
        else memory.byte place }
  else none

end Memory

/-!
Running a code generator.

A plugin is a module with a memory and two functions.  One gives the address of
room for a number of bytes, or zero.  The other takes the address and the length
of a request and the address of a word, stores there the address of its
response, and gives a status.  A call can also fail with a text.  Nothing is
assumed about the functions.  Only the lowest eight bits of the status count,
and the length of the response with its own four bytes is a word too, which
wraps around.
-/

/-- A result of a call with the memory it leaves behind, or the text of an
outright failure. -/
abbrev Call := Except String (Nat × Memory)

structure Module where
  memory : Option Memory
  allocate : Option (Memory -> Nat -> Call)
  generate : Option (Memory -> Nat -> Nat -> Nat -> Call)

structure Generator where
  memory : Memory
  allocate : Memory -> Nat -> Call
  generate : Memory -> Nat -> Nat -> Nat -> Call

inductive LoadError where
  | compile (reason : String)
  | instantiate (reason : String)
  | noAllocate
  | noGenerate
  | noMemory
deriving DecidableEq, Repr

def LoadError.message : LoadError -> String
  | compile reason => "Failed to compile codegen plugin: " ++ reason
  | instantiate reason => "Failed to instantiate codegen plugin: " ++ reason
  | noAllocate => "Codegen plugin does not export fudgeproto_codegen_allocate"
  | noGenerate => "Codegen plugin does not export fudgeproto_codegen_generate"
  | noMemory => "Codegen plugin does not export its memory"

def Module.generator (loaded : Module) : Except LoadError Generator :=
  match loaded.allocate, loaded.generate, loaded.memory with
  | none, _, _ => .error .noAllocate
  | some _, none, _ => .error .noGenerate
  | some _, some _, none => .error .noMemory
  | some allocate, some generate, some memory => .ok ⟨memory, allocate, generate⟩

inductive RunError where
  | failed (text : String)
  | noRoom (size : Nat)
  | requestNotWritten
  | noPointer
  | noLength
  | noMessage
  | unreadable (error : ResponseError)
deriving DecidableEq, Repr

def RunError.message : RunError -> String
  | failed text => text
  | noRoom size => "Codegen plugin failed to allocate " ++ toString size ++ " bytes"
  | requestNotWritten => "Failed to write codegen request"
  | noPointer => "Failed to read response message pointer"
  | noLength => "Failed to read response message length"
  | noMessage => "Failed to read response message"
  | unreadable error => error.message

def wordCount : Nat := 4294967296

namespace Generator

/-- Asks for room, the address of which is a word and not zero. -/
def room (generator : Generator) (memory : Memory) (size : Nat) :
    Except RunError (Nat × Memory) :=
  match generator.allocate memory (size % wordCount) with
  | .error text => .error (.failed text)
  | .ok (address, memory) =>
    if address % wordCount = 0 then .error (.noRoom size)
    else .ok (address % wordCount, memory)

end Generator

def Response.ofMemory (memory : Memory) (slot : Nat) : Except RunError Response :=
  match memory.word? slot with
  | none => .error .noPointer
  | some address =>
    match memory.word? address with
    | none => .error .noLength
    | some length =>
      match memory.read? address ((4 + length) % wordCount) with
      | none => .error .noMessage
      | some bytes =>
        match Response.ofFrame bytes with
        | .error error => .error (.unreadable error)
        | .ok response => .ok response

/-- A response to a call that ended with a status.  A status other than zero is an error
by itself. -/
def Response.withStatus (response : Response) (status : Nat) : Response :=
  if status % 256 ≠ 0 ∧ response.error = "" then
    { response with error := "Codegen plugin failed with status " ++ toString (status % 256) }
  else response

def Generator.respond (generator : Generator) (request : List UInt8) :
    Except RunError Response := do
  let (address, memory) ← generator.room generator.memory request.length
  match memory.write? address request with
  | none => .error .requestNotWritten
  | some memory =>
    let (slot, memory) ← generator.room memory 4
    match generator.generate memory address (request.length % wordCount) slot with
    | .error text => .error (.failed text)
    | .ok (status, memory) =>
      let response ← Response.ofMemory memory slot
      return response.withStatus status

end MessageSchema.Plugin
