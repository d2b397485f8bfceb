import ShaderDef.Proofs.Grammar.Value
import ShaderDef.Proofs.Lexical.Join

/-! Sources joined by a line feed. The tokens of the second one come behind those of the first,
moved by the bytes before them, and so do its events and its faults. -/

namespace ShaderDef

open List (Forall₂)

namespace Text

theorem takeBytes_append_left {n : Nat} {as : List Char} (within : n ≤ size as) (bs : List Char) :
    takeBytes n (as ++ bs) = takeBytes n as := by
  induction as generalizing n with
  | nil =>
    obtain rfl : n = 0 := Nat.le_zero.1 within
    simp
  | cons c as ih =>
    rw [size_cons] at within
    simp only [List.cons_append, takeBytes]
    split
    · rw [ih (by omega)]
    · rfl

theorem dropBytes_append_left {n : Nat} {as : List Char} (within : n ≤ size as) (bs : List Char) :
    dropBytes n (as ++ bs) = dropBytes n as ++ bs := by
  induction as generalizing n with
  | nil =>
    obtain rfl : n = 0 := Nat.le_zero.1 within
    simp
  | cons c as ih =>
    rw [size_cons] at within
    simp only [List.cons_append, dropBytes]
    split
    · rw [ih (by omega)]
    · rfl

theorem size_le_dropBytes (n : Nat) (cs : List Char) : size cs ≤ n + size (dropBytes n cs) := by
  have whole := congrArg size (takeBytes_append_dropBytes n cs)
  have taken := size_takeBytes_le n cs
  rw [size_append] at whole
  omega

theorem dropBytes_add_append (as bs : List Char) (n : Nat) :
    dropBytes (n + size as) (as ++ bs) = dropBytes n bs := by
  induction as with
  | nil => rfl
  | cons c as ih =>
    have fits : c.utf8Size ≤ n + size (c :: as) := by rw [size_cons]; omega
    have rest : n + size (c :: as) - c.utf8Size = n + size as := by rw [size_cons]; omega
    rw [List.cons_append, dropBytes, if_pos fits, rest, ih]

/-- What is cut out of a text can be cut out of any text that goes on. -/
theorem slice_append_left {start stop : Nat} {as : List Char} (within : stop ≤ size as)
    (bs : List Char) : slice start stop (as ++ bs) = slice start stop as := by
  unfold slice
  by_cases ordered : start ≤ stop
  · have left := size_le_dropBytes start as
    rw [dropBytes_append_left (by omega), takeBytes_append_left (by omega)]
  · have none : stop - start = 0 := by omega
    rw [none, takeBytes_zero, takeBytes_zero]

theorem slice_append_right (start stop : Nat) (as bs : List Char) :
    slice (start + size as) (stop + size as) (as ++ bs) = slice start stop bs := by
  rw [slice, dropBytes_add_append, Nat.add_sub_add_right, slice]

end Text

namespace Token

theorem shift_alike (n : Nat) (t : Token) : Token.Alike (fun i j => j = i + n) t (t.shift n) :=
  ⟨rfl, fun _ => rfl, rfl⟩

end Token

def Event.shift (n : Nat) : Event → Event
  | .opens item index => .opens item (index + n)
  | .code stage start stop => .code stage (start + n) (stop + n)
  | e => e

def Fault.shift (n : Nat) (f : Fault) : Fault :=
  ⟨f.cause, f.index + n⟩

theorem Result.Alike.eq_error_shift {α β : Type} {Q : α → β → Prop} {n : Nat} {f : Fault}
    {r : Except Fault β} (alike : Result.Alike (fun i j => j = i + n) Q (.error f) r) :
    r = .error (f.shift n) := by
  obtain _ | same := alike
  obtain ⟨cause, place⟩ := same
  rw [Fault.shift, cause, ← place]

namespace Event

variable {n : Nat} {e e' : Event} {es fs : List Event}

theorem shift_of_free (free : e.isPlaced = false) (n : Nat) : e.shift n = e := by
  cases e with
  | opens => simp [isPlaced] at free
  | code => simp [isPlaced] at free
  | _ => rfl

theorem declared?_of_free (free : e.isPlaced = false) (source source' : String) :
    e.declared? source = e.declared? source' := by
  cases e with
  | code => simp [isPlaced] at free
  | _ => rfl

theorem Alike.eq_shift (alike : e.Alike (fun i j => j = i + n) e') : e' = e.shift n := by
  cases alike with
  | opens item place => rw [place]; rfl
  | code stage opened closed => rw [opened, closed, Nat.add_right_comm]; rfl
  | same free => exact (shift_of_free free n).symm

theorem eq_map_shift (alike : Forall₂ (Event.Alike fun i j => j = i + n) es fs) :
    fs = es.map (shift n) := by
  induction alike with
  | nil => rfl
  | cons head _ ih => rw [List.map_cons, head.eq_shift, ih]

theorem opened?_shift (n : Nat) (e : Event) : (e.shift n).opened? = e.opened? := by
  cases e <;> rfl

@[simp] theorem items_map_shift (n : Nat) (es : List Event) :
    items (es.map (shift n)) = items es := by
  rw [items, List.filterMap_map]
  exact List.filterMap_congr fun e _ => opened?_shift n e

/-- Behind `as`, the declarations of shifted events are those of the events. -/
theorem declared?_shift {source source' : String} {as : List Char}
    (whole : source'.toList = as ++ source.toList) (e : Event) :
    (e.shift (Text.size as)).declared? source' = e.declared? source := by
  cases e with
  | code stage start stop => simp only [shift, declared?, whole, Text.slice_append_right]
  | _ => rfl

/-- Events within a source declare the same in any source that goes on. -/
theorem declared?_append {source source' : String} {bs : List Char}
    (whole : source'.toList = source.toList ++ bs)
    (alike : e.Alike (fun i j => i = j ∧ j ≤ Text.size source.toList) e') :
    e'.declared? source' = e.declared? source := by
  cases alike with
  | opens => rfl
  | code stage opened closed =>
    obtain ⟨rfl, _⟩ := opened
    obtain ⟨rfl, within⟩ := closed
    simp only [declared?, whole, Text.slice_append_left within]
  | same free => exact declared?_of_free free _ _

end Event

namespace Grammar

variable {α : Type} {P : List Token → α → Prop} {kind : Token.Kind} {ss ts : List Token} {t : Token}

def Finished (ts : List Token) : Prop :=
  ∀ t ∈ ts.getLast?, t.kind ≠ .invalidComment

theorem Finished.append (front : Finished ss) (behind : Finished ts) : Finished (ss ++ ts) := by
  intro t last
  rw [List.getLast?_append, Option.mem_def, Option.or_eq_some_iff] at last
  rcases last with second | ⟨_, first⟩
  · exact behind t second
  · exact front t first

theorem finished_of_last (closed : t.kind ≠ .invalidComment) (ss : List Token) :
    Finished (ss ++ [t]) := by
  intro s last
  rw [List.getLast?_concat, Option.mem_def, Option.some.injEq] at last
  rwa [← last]

theorem Terminal.finished (terminal : Terminal kind ts t) (closed : kind ≠ .invalidComment)
    (ss : List Token) : Finished (ss ++ ts) := by
  obtain ⟨_, rfl⟩ := terminal
  rw [← List.append_assoc]
  exact finished_of_last closed _

theorem Star.finished {as : List α} (each : ∀ seg a, P seg a → Finished seg) (star : Star P ts as) :
    Finished ts := by
  induction star with
  | nil => exact fun t last => by simp at last
  | cons head _ ih => exact (each _ _ head).append ih

theorem Braced.finished {a : α} (braced : Braced P ts a) (ss : List Token) :
    Finished (ss ++ ts) := by
  obtain ⟨_, _, closed⟩ := braced
  rw [← List.append_assoc, ← List.append_assoc]
  exact closed.finished (by decide) _

theorem Section.finished {source : String} {ds : List Declaration} (part : Section source ts ds) :
    Finished ts := by
  cases part with
  | name _ _ ended =>
    rw [← List.append_assoc]
    exact ended.finished (by decide) _
  | bindings _ listed => exact listed.finished _
  | input _ listed => exact listed.finished _
  | pixelInput _ listed => exact listed.finished _
  | shader _ listed => exact listed.finished _

theorem Program.finished {source : String} {ds : List Declaration}
    (program : Program source ts ds) : Finished ts := by
  obtain ⟨sections, comments⟩ := program
  refine (sections.finished fun _ _ => Section.finished).append fun t last wrong => ?_
  have comment := comments t (List.mem_of_getLast? last)
  simp [wrong, Token.Kind.isComment] at comment

end Grammar

open Outline

variable {a : String}

def Text.reach (a : String) : Nat :=
  size a.toList + 1

theorem toList_join (a b : String) :
    (a ++ "\n" ++ b).toList = (a.toList ++ ['\n']) ++ b.toList := by
  rw [String.toList_append, String.toList_append]
  rfl

theorem Text.size_reach (a : String) : size (a.toList ++ ['\n']) = reach a := by
  rw [size_append, reach]
  rfl

theorem Token.ofSource_join (finished : Grammar.Finished (ofSource a)) (b : String) :
    ofSource (a ++ "\n" ++ b) = ofSource a ++ (ofSource b).map (shift (Text.reach a)) := by
  rw [ofSource_eq_scan] at finished
  rw [ofSource_eq_scan, ofSource_eq_scan, ofSource_eq_scan, toList_join, List.append_assoc,
    List.singleton_append, scan_append_break finished rfl, scan_space rfl, ← scan_shift, Text.reach,
    Nat.zero_add, Nat.zero_add]
  rfl

end ShaderDef
