import Citations.Log.Base
import Citations.Options

/-!
# Factories of loggers

A factory hands out loggers and sets the base logger up on its first request.  Its level follows
the debug option unless one is given.
-/

namespace Citations

structure Factory (σ : Type) where
  format : Format
  level : Int
  stream : σ
  /-- whether a logger has been asked for -/
  attached : Bool := false
  deriving DecidableEq, Repr

namespace Factory
variable {σ : Type}

def levelFor (o : Options) : Int := if o.debug then Level.debug else Level.info

def make (options : Options) (format : Format) (level : Option Int) (stream : σ) : Factory σ where
  format := format
  level := level.getD (levelFor options)
  stream := stream

/-- What a request leaves of the factory and the base logger. -/
def request (f : Factory σ) (b : Base σ) : Factory σ × Base σ :=
  if f.attached then (f, b) else ({ f with attached := true }, b.setUp f.format f.level f.stream)

theorem request_of_attached {f : Factory σ} (h : f.attached = true) (b : Base σ) :
    f.request b = (f, b) := by
  simp [request, h]

end Factory
end Citations
