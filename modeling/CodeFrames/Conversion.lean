import CodeFrames.Assembly
import CodeFrames.Reading.Member

/-!
Converting a source text: its events are read and assembled.  An event that the assembly refuses comes
before any fault further on in the source.
-/

namespace CodeFrames

/-- The state of an assembly after some events. -/
def Assembly.run (a : Assembly) (events : List Event) : Except ConversionError Assembly :=
  events.foldlM Assembly.step a

def convert (options : Options) (source : Text) : Except ConversionError Conversion := do
  let (events, result) := readEvents source
  let assembly ← (Assembly.start source options).run events
  match result with
  | .error e => .error (.faultySource e)
  | .ok () => assembly.finish

end CodeFrames
