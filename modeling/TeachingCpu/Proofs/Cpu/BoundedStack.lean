import TeachingCpu.Proofs.Cpu.Arithmetic

/-!
# The stack in memory is a bounded stack

The words on the stack are a list, of which `push` and `pop` use the head, and which has room for as
many words as the segment has pairs of bytes. What happens elsewhere on the processor does not
matter to it (`StackEvent`). The record of calls is the part of this list that calls have put there,
as long as only returns take from it what calls have put there (`actsAsStack_behind_initStack`).
-/

namespace TeachingCpu

open Attempt

/-- The number of words that the stack segment has room for. -/
def Layout.stackCapacity (l : Layout) : Nat := (l.size - l.stackStart.toNat) / 2

/-! ## Words in memory -/

namespace Memory

/-- From an address up to the end of memory there are these words. -/
def Stacked (m : Memory) (address : Nat) : List UInt16 → Prop
  | [] => address = m.layout.size
  | word :: rest => m.wordAt address = word ∧ m.Stacked (address + 2) rest

variable {m n : Memory} {address : Nat} {words : List UInt16}

theorem Stacked.length_eq (h : m.Stacked address words) :
    address + 2 * words.length = m.layout.size := by
  induction words generalizing address with
  | nil => exact h
  | cons word rest ih =>
    have hrest := ih h.2
    rw [List.length_cons]
    omega

/-- Only the bytes from the address on matter. -/
theorem Stacked.congr (h : m.Stacked address words) (hlayout : n.layout = m.layout)
    (hbytes : ∀ k, address ≤ k → n.byteAt k = m.byteAt k) : n.Stacked address words := by
  induction words generalizing address with
  | nil => exact h.trans (congrArg Layout.size hlayout).symm
  | cons word rest ih =>
    refine ⟨?_, ih h.2 fun k hk => hbytes k (by omega)⟩
    rw [wordAt, hbytes address le_rfl, hbytes (address + 1) (by omega)]
    exact h.1

/-- A word in front of the others. -/
theorem Stacked.cons (h : m.Stacked (address + 2) words) (hsize : m.layout.size ≤ 65535)
    (value : UInt16) :
    (m.replace address (wordBytes value)).Stacked address (value :: words) := by
  have hlength := h.length_eq
  have hwrite : m.writeWord address value = .ok (m.replace address (wordBytes value)) := by
    refine writeWord_eq ?_ value
    rw [Layout.lastAddressable_eq hsize]
    omega
  refine ⟨wordAt_of_writeWord (by omega) hsize hwrite, h.congr rfl fun k hk => ?_⟩
  exact byteAt_replace_outside (.inr hk)

end Memory

/-! ## Entries -/

/-- A word on the stack, and whether a call has put it there. -/
structure StackEntry where
  word : UInt16
  isCall : Bool
deriving DecidableEq, Repr

namespace StackEntry

variable {entries : List StackEntry}

/-- The words that calls have put on a stack. -/
def calls (entries : List StackEntry) : List UInt16 := (entries.filter isCall).map word

/-- One more entry, if there is room. -/
def put (capacity : Nat) (entry : StackEntry) (entries : List StackEntry) : List StackEntry :=
  if entries.length < capacity then entry :: entries else entries

theorem calls_cons_of_push {entry : StackEntry} (h : entry.isCall = false) :
    calls (entry :: entries) = calls entries := by
  unfold calls
  rw [List.filter_cons_of_neg (Bool.eq_false_iff.mp h)]

theorem calls_cons_of_call {entry : StackEntry} (h : entry.isCall = true) :
    calls (entry :: entries) = entry.word :: calls entries := by
  unfold calls
  rw [List.filter_cons_of_pos h, List.map_cons]

end StackEntry

namespace Cpu

/-- A processor whose stack is the same. -/
structure SparesStack (s t : Cpu) : Prop where
  layout : t.layout = s.layout
  regs : ∀ r ∈ [Register.sp, .ss, .se], t.reg r = s.reg r
  bytes : ∀ address, s.layout.stackStart.toNat ≤ address →
    t.memory.byteAt address = s.memory.byteAt address
  calls : t.calls = s.calls

end Cpu

/-- What happens to a processor whose stack is used by these four actions alone. A change that would
touch the stack of some processors is taken to leave those as they are. -/
inductive StackEvent where
  | push (value : UInt16)
  | pop
  | enterCall (address : UInt16)
  | leaveCall
  | elsewhere (change : Cpu → Cpu) (h : ∀ cpu : Cpu, cpu.SparesStack (change cpu))

namespace StackEvent

/-- The processor behind an event. An action that fails is an event too. -/
def after (cpu : Cpu) : StackEvent → Cpu
  | push value => (Cpu.push value).finalState cpu
  | pop => Cpu.pop.finalState cpu
  | enterCall address => (Cpu.enterCall address).finalState cpu
  | leaveCall => Cpu.leaveCall.finalState cpu
  | elsewhere change _ => change cpu

/-- The entries behind an event, for a stack with room for so many. -/
def entriesAfter (capacity : Nat) (entries : List StackEntry) : StackEvent → List StackEntry
  | push value => StackEntry.put capacity ⟨value, false⟩ entries
  | enterCall address => StackEntry.put capacity ⟨address, true⟩ entries
  | pop | leaveCall => entries.tail
  | elsewhere _ _ => entries

/-- What is on a stack that was empty before a sequence of events. -/
def contents (capacity : Nat) (events : List StackEvent) : List StackEntry :=
  events.foldl (entriesAfter capacity) []

/-- The word that an event takes off, if there is one, was put there by its counterpart. -/
def Matches (entries : List StackEntry) : StackEvent → Prop
  | pop => ∀ entry ∈ entries.head?, entry.isCall = false
  | leaveCall => ∀ entry ∈ entries.head?, entry.isCall = true
  | push _ | enterCall _ | elsewhere _ _ => True

/-- Each event of a sequence takes off what its counterpart has put there. -/
def AllMatch (capacity : Nat) : List StackEntry → List StackEvent → Prop
  | _, [] => True
  | entries, event :: rest =>
    event.Matches entries ∧ AllMatch capacity (event.entriesAfter capacity entries) rest

end StackEvent

namespace Cpu

/-- The processor behind a sequence of events. -/
def behind (cpu : Cpu) (events : List StackEvent) : Cpu := events.foldl StackEvent.after cpu

variable {cpu cpu' : Cpu} {entries : List StackEntry} {event : StackEvent}

/-! ## One event -/

/-- The stack of a processor holds some entries. -/
structure Stacks (cpu : Cpu) (entries : List StackEntry) : Prop where
  sized : cpu.Sized
  confined : cpu.StackConfined
  words : cpu.memory.Stacked (cpu.reg .sp).toNat (entries.map StackEntry.word)

namespace Stacks

theorem length_eq (h : cpu.Stacks entries) :
    (cpu.reg .sp).toNat + 2 * entries.length = cpu.layout.size := by
  have hlength := h.words.length_eq
  rwa [List.length_map] at hlength

theorem length_le (h : cpu.Stacks entries) : entries.length ≤ cpu.layout.stackCapacity := by
  have hlength := h.length_eq
  have hlow := h.confined.low
  unfold Layout.stackCapacity
  omega

/-- There is no room for a word exactly if all the room is taken. -/
theorem full_iff (h : cpu.Stacks entries) :
    (cpu.reg .sp).toNat < cpu.layout.stackStart.toNat + 2 ↔
      ¬ entries.length < cpu.layout.stackCapacity := by
  have hlength := h.length_eq
  have hlow := h.confined.low
  unfold Layout.stackCapacity
  omega

theorem empty_iff (h : cpu.Stacks entries) :
    cpu.layout.size < (cpu.reg .sp).toNat + 2 ↔ entries = [] := by
  have hlength := h.length_eq
  rw [← List.length_eq_zero_iff]
  omega

/-- A word is put on the stack if there is room. -/
theorem push_eq (h : cpu.Stacks entries) (value : UInt16) :
    push value cpu =
      if entries.length < cpu.layout.stackCapacity then .ok () (cpu.pushed value)
      else .error (.of (.stackOverflow cpu.layout.stackStart)) cpu := by
  rw [Cpu.push_eq h.confined h.sized, if_congr h.full_iff rfl rfl, ite_not]

/-- The last word is taken off the stack. -/
theorem pop_eq (h : cpu.Stacks entries) :
    pop cpu =
      match entries with
      | [] => .error (.of .stackUnderflow) cpu
      | entry :: _ => .ok entry.word cpu.popped := by
  rw [Cpu.pop_eq h.confined h.sized, if_congr h.empty_iff rfl rfl]
  cases entries with
  | nil => rfl
  | cons entry rest =>
    rw [if_neg (List.cons_ne_nil _ _), h.words.1]

/-- The record of calls is not part of the stack. -/
theorem of_calls (h : cpu.Stacks entries) (calls : List UInt16) :
    { cpu with calls }.Stacks entries :=
  ⟨⟨h.sized.pos, h.sized.le⟩, h.confined.of_regs rfl fun _ _ => rfl, h.words⟩

theorem of_spares (h : cpu.Stacks entries) (hspares : cpu.SparesStack cpu') :
    cpu'.Stacks entries := by
  have hsp := hspares.regs .sp (by decide)
  refine ⟨?_, h.confined.of_regs hspares.layout hspares.regs, ?_⟩
  · constructor
    · rw [hspares.layout]
      exact h.sized.pos
    · rw [hspares.layout]
      exact h.sized.le
  · rw [hsp]
    refine h.words.congr hspares.layout fun k hk => hspares.bytes k ?_
    exact Nat.le_trans h.confined.low hk

theorem pushed (h : cpu.Stacks entries) (hroom : entries.length < cpu.layout.stackCapacity)
    (entry : StackEntry) : (cpu.pushed entry.word).Stacks (entry :: entries) := by
  have hpush := h.push_eq entry.word
  rw [if_pos hroom] at hpush
  obtain ⟨-, hlow, hconfined⟩ := h.confined.push h.sized hpush
  have hsize := h.sized.le
  have hlength := h.length_eq
  have hsp : ((cpu.reg .sp).toNat - 2).toUInt16.toNat = (cpu.reg .sp).toNat - 2 :=
    Nat.toNat_toUInt16_of_le (by omega)
  refine ⟨⟨h.sized.pos, h.sized.le⟩, hconfined, ?_⟩
  unfold Cpu.pushed
  rw [reg_setSlot_self, hsp]
  refine Memory.Stacked.cons ?_ hsize entry.word
  rw [Nat.sub_add_cancel (by omega)]
  exact h.words

theorem popped {entry : StackEntry} (h : cpu.Stacks (entry :: entries)) :
    cpu.popped.Stacks entries := by
  obtain ⟨-, -, hconfined⟩ := h.confined.pop h.sized h.pop_eq
  have hsize := h.sized.le
  have hlength := h.length_eq
  rw [List.length_cons] at hlength
  have hsp : ((cpu.reg .sp).toNat + 2).toUInt16.toNat = (cpu.reg .sp).toNat + 2 :=
    Nat.toNat_toUInt16_of_le (by omega)
  refine ⟨⟨h.sized.pos, h.sized.le⟩, hconfined, ?_⟩
  unfold Cpu.popped
  rw [reg_setSlot_self, hsp]
  exact h.words.2

theorem enterCall_eq (h : cpu.Stacks entries) (address : UInt16) :
    enterCall address cpu =
      if entries.length < cpu.layout.stackCapacity then
        .ok () { cpu.pushed address with calls := address :: cpu.calls }
      else .error (.of (.stackOverflow cpu.layout.stackStart)) cpu := by
  have hpush := h.push_eq address
  split at hpush
  · next hroom =>
    rw [if_pos hroom]
    exact bind_of_ok hpush
  · next hfull =>
    rw [if_neg hfull]
    exact bind_of_error hpush

theorem leaveCall_eq (h : cpu.Stacks entries) :
    leaveCall cpu =
      match entries with
      | [] => .error (.of .stackUnderflow) cpu
      | entry :: _ => .ok entry.word { cpu.popped with calls := cpu.calls.tail } := by
  have hpop := h.pop_eq
  cases entries with
  | nil => exact bind_of_error hpop
  | cons entry rest => exact bind_of_ok hpop

theorem after_push (h : cpu.Stacks entries) (value : UInt16) :
    (StackEvent.push value).after cpu =
      if entries.length < cpu.layout.stackCapacity then cpu.pushed value else cpu :=
  finalState_of_ite (h.push_eq value)

theorem after_enterCall (h : cpu.Stacks entries) (address : UInt16) :
    (StackEvent.enterCall address).after cpu =
      if entries.length < cpu.layout.stackCapacity then
        { cpu.pushed address with calls := address :: cpu.calls }
      else cpu :=
  finalState_of_ite (h.enterCall_eq address)

theorem after_pop (h : cpu.Stacks entries) :
    StackEvent.pop.after cpu = if entries = [] then cpu else cpu.popped := by
  have hact := h.pop_eq
  cases entries with
  | nil => exact finalState_of_error hact
  | cons entry rest => exact finalState_of_ok hact

theorem after_leaveCall (h : cpu.Stacks entries) :
    StackEvent.leaveCall.after cpu =
      if entries = [] then cpu else { cpu.popped with calls := cpu.calls.tail } := by
  have hact := h.leaveCall_eq
  cases entries with
  | nil => exact finalState_of_error hact
  | cons entry rest => exact finalState_of_ok hact

/-- An event leaves the entries that it should. -/
theorem after (h : cpu.Stacks entries) (event : StackEvent) :
    (event.after cpu).Stacks (event.entriesAfter cpu.layout.stackCapacity entries) ∧
      (event.after cpu).layout = cpu.layout := by
  cases event with
  | push value =>
    rw [h.after_push, StackEvent.entriesAfter, StackEntry.put]
    split
    · next hroom => exact ⟨h.pushed hroom ⟨value, false⟩, rfl⟩
    · exact ⟨h, rfl⟩
  | enterCall address =>
    rw [h.after_enterCall, StackEvent.entriesAfter, StackEntry.put]
    split
    · next hroom => exact ⟨(h.pushed hroom ⟨address, true⟩).of_calls _, rfl⟩
    · exact ⟨h, rfl⟩
  | pop =>
    rw [h.after_pop, StackEvent.entriesAfter]
    cases entries with
    | nil => exact ⟨h, rfl⟩
    | cons entry rest => exact ⟨h.popped, rfl⟩
  | leaveCall =>
    rw [h.after_leaveCall, StackEvent.entriesAfter]
    cases entries with
    | nil => exact ⟨h, rfl⟩
    | cons entry rest => exact ⟨h.popped.of_calls _, rfl⟩
  | elsewhere change hchange => exact ⟨h.of_spares (hchange cpu), (hchange cpu).layout⟩

/-- An event that takes off what its counterpart has put there keeps the record of calls in step. -/
theorem calls_after (h : cpu.Stacks entries) (hcalls : cpu.calls = StackEntry.calls entries)
    (hmatches : event.Matches entries) :
    (event.after cpu).calls =
      StackEntry.calls (event.entriesAfter cpu.layout.stackCapacity entries) := by
  cases event with
  | push value =>
    rw [h.after_push, StackEvent.entriesAfter, StackEntry.put]
    split <;> exact hcalls
  | enterCall address =>
    rw [h.after_enterCall, StackEvent.entriesAfter, StackEntry.put]
    split
    · exact congrArg (address :: ·) hcalls
    · exact hcalls
  | pop =>
    rw [h.after_pop, StackEvent.entriesAfter]
    cases entries with
    | nil => exact hcalls
    | cons entry rest =>
      have hpushed : entry.isCall = false := hmatches entry rfl
      rw [StackEntry.calls_cons_of_push hpushed] at hcalls
      exact hcalls
  | leaveCall =>
    rw [h.after_leaveCall, StackEvent.entriesAfter]
    cases entries with
    | nil => exact hcalls
    | cons entry rest =>
      have hentered : entry.isCall = true := hmatches entry rfl
      rw [StackEntry.calls_cons_of_call hentered] at hcalls
      exact congrArg List.tail hcalls
  | elsewhere change hchange => exact (hchange cpu).calls.trans hcalls

/-! ## Sequences of events -/

theorem behind (h : cpu.Stacks entries) (events : List StackEvent) :
    (cpu.behind events).Stacks
        (events.foldl (StackEvent.entriesAfter cpu.layout.stackCapacity) entries) ∧
      (cpu.behind events).layout = cpu.layout := by
  induction events generalizing cpu entries with
  | nil => exact ⟨h, rfl⟩
  | cons event rest ih =>
    obtain ⟨hstep, hlayout⟩ := h.after event
    obtain ⟨hrest, hlayout'⟩ := ih hstep
    rw [hlayout] at hrest hlayout'
    exact ⟨hrest, hlayout'⟩

theorem calls_behind (h : cpu.Stacks entries) (hcalls : cpu.calls = StackEntry.calls entries)
    {events : List StackEvent}
    (hmatch : StackEvent.AllMatch cpu.layout.stackCapacity entries events) :
    (cpu.behind events).calls = StackEntry.calls
      (events.foldl (StackEvent.entriesAfter cpu.layout.stackCapacity) entries) := by
  induction events generalizing cpu entries with
  | nil => exact hcalls
  | cons event rest ih =>
    obtain ⟨hmatches, hrest⟩ := hmatch
    obtain ⟨hstep, hlayout⟩ := h.after event
    have hcalls' := h.calls_after hcalls hmatches
    have hall := ih hstep hcalls'
    rw [hlayout] at hall
    exact hall hrest

end Stacks

/-- A stack that was pointed at its segment is empty. -/
theorem stacks_initStack (hsized : cpu.Sized) : cpu.initStack.Stacks [] := by
  have hsize := hsized.le
  have hss : cpu.initStack.reg .ss = cpu.layout.stackStart := by
    unfold initStack
    rw [reg_setSlot_of_ne _ (by decide), reg_setSlot_of_ne _ (by decide), reg_setSlot_self]
  have hse : (cpu.initStack.reg .se).toNat = cpu.layout.size - 1 := by
    unfold initStack
    rw [reg_setSlot_of_ne _ (by decide), reg_setSlot_self, Layout.lastAddressable_eq hsize]
  have hsp : (cpu.initStack.reg .sp).toNat = cpu.layout.size := by
    unfold initStack
    rw [reg_setSlot_self, Nat.toNat_toUInt16_of_le hsize]
  have hlayout : cpu.initStack.layout = cpu.layout := cpu.evolves_initStack.keeps.1
  refine ⟨⟨hsized.pos, hsize⟩, ?_, hsp⟩
  constructor
  · rw [hss, hlayout]
  · rw [hse, hlayout]
  · rw [hsp, hlayout]
    exact Nat.le_of_lt hsized.pos
  · rw [hsp, hlayout]
  · rw [hsp, hlayout, Nat.sub_self]

/-- An action fails in a way, and changes nothing. -/
def Declines {α : Type} (cpu : Cpu) (act : Attempt Cpu α) (kind : ErrorKind) : Prop :=
  ∃ e, act cpu = .error e cpu ∧ e.kind = kind

/-- A processor answers as a stack that has room for so many entries and holds these. -/
structure ActsAsStack (cpu : Cpu) (capacity : Nat) (entries : List StackEntry) : Prop where
  bounded : entries.length ≤ capacity
  room : entries.length < capacity → ∀ value,
    (∃ t, push value cpu = .ok () t) ∧ ∃ t, enterCall value cpu = .ok () t
  full : entries.length = capacity → ∀ value,
    cpu.Declines (push value) .stackOverflow ∧ cpu.Declines (enterCall value) .stackOverflow
  empty : entries = [] →
    cpu.Declines pop .stackUnderflow ∧ cpu.Declines leaveCall .stackUnderflow
  last : ∀ entry rest, entries = entry :: rest →
    (∃ t, pop cpu = .ok entry.word t) ∧ ∃ t, leaveCall cpu = .ok entry.word t

theorem Stacks.actsAsStack (h : cpu.Stacks entries) :
    cpu.ActsAsStack cpu.layout.stackCapacity entries where
  bounded := h.length_le
  room hroom value := by
    rw [h.push_eq, h.enterCall_eq, if_pos hroom, if_pos hroom]
    exact ⟨⟨_, rfl⟩, _, rfl⟩
  full hfull value := by
    have hnone : ¬ entries.length < cpu.layout.stackCapacity := by omega
    unfold Declines
    rw [h.push_eq, h.enterCall_eq, if_neg hnone, if_neg hnone]
    exact ⟨⟨_, rfl, rfl⟩, _, rfl, rfl⟩
  empty hempty := by
    subst hempty
    exact ⟨⟨_, h.pop_eq, rfl⟩, _, h.leaveCall_eq, rfl⟩
  last entry rest hentries := by
    subst hentries
    exact ⟨⟨_, h.pop_eq⟩, _, h.leaveCall_eq⟩

/-- Behind any sequence of events that starts with an empty stack and no calls, the processor acts
as a bounded stack of the words that are on it. While every event takes off what its counterpart
has put there, the record of calls is what calls have put on the stack, and the next return that
does so as well takes its first entry. -/
theorem actsAsStack_behind_initStack {size stackPercent dataPercent max : Nat} {layout : Layout}
    (hlayout : Layout.ofShares size stackPercent dataPercent max = .ok layout)
    (hsize : layout.size ≤ 65535) (hcpu : cpu.layout = layout) (hcalls : cpu.calls = [])
    (events : List StackEvent) :
    (cpu.initStack.behind events).ActsAsStack layout.stackCapacity
        (StackEvent.contents layout.stackCapacity events) ∧
      (StackEvent.AllMatch layout.stackCapacity [] events →
        (cpu.initStack.behind events).calls =
            StackEntry.calls (StackEvent.contents layout.stackCapacity events) ∧
          (StackEvent.leaveCall.Matches (StackEvent.contents layout.stackCapacity events) →
            ∀ address t, leaveCall (cpu.initStack.behind events) = .ok address t →
              (cpu.initStack.behind events).calls.head? = some address)) := by
  subst hcpu
  have hinit := stacks_initStack ⟨Layout.stackStart_lt hlayout hsize, hsize⟩
  obtain ⟨hstacks, hbehind⟩ := hinit.behind events
  change (cpu.initStack.behind events).Stacks
    (StackEvent.contents cpu.layout.stackCapacity events) at hstacks
  have hacts := hstacks.actsAsStack
  rw [hbehind] at hacts
  refine ⟨hacts, fun hmatch => ?_⟩
  have hmirror : _ = StackEntry.calls (StackEvent.contents cpu.layout.stackCapacity events) :=
    hinit.calls_behind hcalls hmatch
  refine ⟨hmirror, fun hmatches address t hleave => ?_⟩
  rw [hmirror]
  generalize StackEvent.contents cpu.layout.stackCapacity events = entries at hstacks hmatches ⊢
  rw [hstacks.leaveCall_eq] at hleave
  cases entries with
  | nil => cases hleave
  | cons entry rest =>
    cases hleave
    rw [StackEntry.calls_cons_of_call (hmatches entry rfl)]
    rfl

/-- A segment of five bytes has room for two words: behind a push and a call nothing more fits, and
the return takes the address of the call. -/
theorem actsAsStack_fiveBytes :
    ∃ layout, Layout.ofShares 20 25 25 65535 = .ok layout ∧ layout.stackCapacity = 2 ∧
      (powerOn layout false).calls = [] ∧
      (∀ value, ((powerOn layout false).initStack.behind [.push 7, .enterCall 9]).Declines
        (push value) .stackOverflow) ∧
      ((powerOn layout false).initStack.behind [.push 7, .enterCall 9]).calls = [9] ∧
      ∃ t, leaveCall ((powerOn layout false).initStack.behind [.push 7, .enterCall 9]) =
        .ok 9 t := by
  have hlayout : Layout.ofShares 20 25 25 65535 = .ok ⟨20, 10, 15⟩ := rfl
  have hcpu : (powerOn ⟨20, 10, 15⟩ false).layout = ⟨20, 10, 15⟩ := rfl
  obtain ⟨hacts, hmirrors⟩ := actsAsStack_behind_initStack hlayout (by decide) hcpu rfl
    [.push 7, .enterCall 9]
  obtain ⟨hcalls, -⟩ := hmirrors ⟨trivial, trivial, trivial⟩
  exact ⟨_, hlayout, rfl, rfl, fun value => (hacts.full rfl value).1, hcalls,
    (hacts.last _ _ rfl).2⟩

end Cpu

end TeachingCpu
