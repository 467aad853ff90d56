import Testbench.Time.Written

/-!
# Published Time

The virtual time as everything outside the policy sees it. The policy publishes a
time whenever it has let one pass; whoever reads it gets the last one published,
and log lines are stamped with it.

## Main definitions

* `Published`: The last published time.
* `Stamper`: What puts the published time on log lines.
* `Stamper.stamp`: The beginning of a log line.
-/

namespace Testbench

structure Published where
  time : Timestamp
  deriving DecidableEq, Inhabited

instance : Inspect Published :=
  ⟨fun p => Inspect.record "TimeReader" [("time", inspect p.time)]⟩

structure Stamper where
  reader : Published
  deriving DecidableEq, Inhabited

/-- The stamp, after whatever another clock has put at the beginning of the line. -/
def Stamper.stamp (s : Stamper) (beginning : String) : String := beginning ++ s.reader.time.stamp

instance : Inspect Stamper :=
  ⟨fun s => Inspect.excerpt "VirtualTime" [("reader", inspect s.reader)]⟩

end Testbench
