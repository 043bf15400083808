import ScanPolicy.Json.Basic

/-!
# The journal

Every capability of the library writes entries into a journal: who wrote it, how important it is,
what happened, and the facts that go with it. A computation that writes entries is a value
together with its entries, so the entries of a computation that breaks off are kept.

- `Level`: the importance of an entry, ordered as an integer.
- `Entry`: one entry.
- `Traced`: a value and the entries written on the way to it, in order.
-/

namespace ScanPolicy

/-- The importance of a journal entry. -/
abbrev Level := Int

namespace Level

def debug : Level := 10
def info : Level := 20
def warning : Level := 30
def error : Level := 40
def critical : Level := 50

end Level

/-- One journal entry. -/
structure Entry where
  logger : String
  level : Level
  message : String
  /-- The facts that go with the entry, in the order in which they are written. -/
  facts : List (String × Json)

/-- A value and the entries written on the way to it. -/
structure Traced (α : Type) where
  value : α
  entries : List Entry

namespace Traced

/-- A value that leaves no trace. -/
def quiet {α : Type} (a : α) : Traced α := ⟨a, []⟩

/-- One step after another: the entries follow each other. -/
def andThen {α β : Type} (t : Traced α) (f : α → Traced β) : Traced β :=
  ⟨(f t.value).value, t.entries ++ (f t.value).entries⟩

instance : Monad Traced where
  pure := quiet
  bind := andThen

/-- A step that only writes an entry. -/
def write (e : Entry) : Traced Unit := ⟨(), [e]⟩

/-- A value with one entry. -/
def noting {α : Type} (a : α) (e : Entry) : Traced α := ⟨a, [e]⟩

@[simp] theorem value_pure {α : Type} (a : α) : (pure a : Traced α).value = a := rfl

@[simp] theorem entries_pure {α : Type} (a : α) : (pure a : Traced α).entries = [] := rfl

@[simp] theorem value_bind {α β : Type} (t : Traced α) (f : α → Traced β) :
    (t >>= f).value = (f t.value).value := rfl

@[simp] theorem entries_bind {α β : Type} (t : Traced α) (f : α → Traced β) :
    (t >>= f).entries = t.entries ++ (f t.value).entries := rfl

end Traced

end ScanPolicy
