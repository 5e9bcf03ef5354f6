/-! Log records: what an operation reports about its course besides its result. -/

namespace MeasureSheet

inductive LogLevel where
  | warn
  | info
  | debug
deriving DecidableEq

def LogLevel.text : LogLevel → String
  | warn => "WARN"
  | info => "INFO"
  | debug => "DEBUG"

structure LogRecord where
  level : LogLevel
  /-- The part of the library that reports. -/
  target : String
  message : String
deriving DecidableEq

end MeasureSheet
