import Leann.ByteStream
import Leann.Outcomes

/-!
# Readers that note what they ask for

A metered reader keeps notes on the way, also when it ends early. Without the
notes it is a plain reader. `Meters` says of a run that it ends as `Meets`
says, with notes that satisfy a condition at every end.
-/

namespace Leann.Metering

open ByteStream Outcomes

variable {ρ ε α β : Type}

/-- A reader with the notes of its run. -/
def Metered (ρ ε α : Type) := Stream → Except ε (α×Stream)×List ρ

namespace Metered

/-- Run a plain reader, which notes nothing. -/
def quietly (reader : Reader ε α) : Metered ρ ε α := fun stream => (reader stream,[])

/-- Note something about the stream. -/
def note (record : Stream → ρ) : Metered ρ ε Unit := fun stream => (.ok ((),stream),[record stream])

/-- Notes follow each other. -/
def andThen (reader : Metered ρ ε α) (next : α → Metered ρ ε β) : Metered ρ ε β := fun stream =>
  match reader stream with
  | (.ok (value,middle),notes) => ((next value middle).1,notes++(next value middle).2)
  | (.error failure,notes) => (.error failure,notes)

instance : Monad (Metered ρ ε) where
  pure value := quietly (pure value)
  bind := andThen

end Metered

/-- The metered reader without its notes. -/
def Erases (metered : Metered ρ ε α) (reader : Reader ε α) : Prop :=
  ∀ stream,(metered stream).1=reader stream

namespace Erases

/-- A plain reader. -/
theorem quietly (reader : Reader ε α) : Erases (Metered.quietly reader : Metered ρ ε α) reader :=
  fun _ => rfl

/-- Returning. -/
theorem returned (value : α) : Erases (pure value : Metered ρ ε α) (pure value) := fun _ => rfl

/-- One reader behind the other. -/
theorem bind {metered : Metered ρ ε α} {reader : Reader ε α} {next : α → Metered ρ ε β}
    {after : α → Reader ε β} (h : Erases metered reader) (hn : ∀ value,Erases (next value) (after value)) :
    Erases (metered>>=next) (reader>>=after) := by
  intro stream
  have hrun := h stream
  cases hm : metered stream with
  | mk result notes =>
    rw [hm] at hrun
    change result=reader stream at hrun
    change (Metered.andThen metered next stream).1=(reader stream>>=fun pair => after pair.1 pair.2)
    rw [←hrun]
    unfold Metered.andThen
    rw [hm]
    cases result with
    | error failure => rfl
    | ok pair => exact hn pair.1 pair.2

/-- A note in front. -/
theorem noted (record : Stream → ρ) {metered : Metered ρ ε α} {reader : Reader ε α}
    (h : Erases metered reader) : Erases (do Metered.note record; metered) reader := fun stream => h stream

end Erases

/-- A run from a stream ends with a result or an allowed failure, and its notes
satisfy a condition in both cases. -/
def Meters (metered : Metered ρ ε α) (start : Stream) (fails : ε → Prop) (noted : List ρ → Prop)
    (post : α → Stream → List ρ → Prop) : Prop :=
  noted (metered start).2 ∧
    match (metered start).1 with
    | .ok (value,stop) => post value stop (metered start).2
    | .error failure => fails failure

namespace Meters

variable {fails : ε → Prop} {noted noted' : List ρ → Prop} {start : Stream}
  {post post' : α → Stream → List ρ → Prop}

/-- Conditions may be weakened. -/
theorem mono {metered : Metered ρ ε α} (h : Meters metered start fails noted post)
    (hn : ∀ notes,noted notes → noted' notes)
    (hp : ∀ value stop notes,post value stop notes → post' value stop notes) :
    Meters metered start fails noted' post' := by
  refine ⟨hn _ h.1,?_⟩
  have hend := h.2
  split at hend
  · rename_i value stop hrun
    exact hp _ _ _ hend
  · exact hend

/-- A plain reader notes nothing. -/
theorem quietly {reader : Reader ε α} {each : α → Stream → Prop} (h : Meets reader start fails each)
    (hn : noted []) : Meters (Metered.quietly reader) start fails noted
      (fun value stop notes => notes=[] ∧ each value stop) := by
  refine ⟨hn,?_⟩
  change match reader start with
    | .ok (value,stop) => ([] : List ρ)=[] ∧ each value stop
    | .error failure => fails failure
  unfold Meets at h
  cases hr : reader start with
  | error failure => rwa [hr] at h
  | ok pair =>
    rw [hr] at h
    exact ⟨rfl,h⟩

/-- A note is taken. -/
theorem note (record : Stream → ρ) (hn : noted [record start]) :
    Meters (Metered.note record) start fails noted
      (fun _ stop notes => stop=start ∧ notes=[record start]) :=
  ⟨hn,rfl,rfl⟩

/-- The second run starts from what the first one left, and its notes come
behind those of the first one. -/
theorem bind {metered : Metered ρ ε α} {next : α → Metered ρ ε β} {last : β → Stream → List ρ → Prop}
    (h : Meters metered start fails noted post)
    (hn : ∀ value stop notes,post value stop notes → noted notes →
      Meters (next value) stop fails (fun more => noted (notes++more))
        (fun result after more => last result after (notes++more))) :
    Meters (metered>>=next) start fails noted last := by
  obtain ⟨hnoted,hend⟩ := h
  change Meters (Metered.andThen metered next) start fails noted last
  unfold Meters Metered.andThen
  cases hm : metered start with
  | mk result notes =>
    rw [hm] at hnoted hend
    cases result with
    | error failure => exact ⟨hnoted,hend⟩
    | ok pair => exact hn pair.1 pair.2 notes hend hnoted

end Meters

end Leann.Metering
