import NoteTape.Program
import NoteTape.Settings.Outline
import NoteTape.Track.File
import NoteTape.Transport.OscMessage

/-!
# The libraries of a running program
-/

namespace NoteTape

/-- The libraries of a running program. -/
def Libraries.standard : Libraries := ⟨.standard, .standard, .standard⟩

end NoteTape
