import Coalesce.Settings
import Coalesce.Text.Quoted
import Coalesce.Time.Display
/-! # Options of a batcher

Options hold exact durations; the settings made of them hold whole milliseconds. -/
namespace Coalesce

structure Options where
  name : String := "batcher"
  idleTimeout : Duration := .ofMillis 100
  maxTimeout : Duration := .ofMillis 1000
  maxRequestWorkers : UInt64 := 100
deriving DecidableEq

namespace Options

def withSettings (_o : Options) (s : Settings) : Options where
  name := s.name
  idleTimeout := s.idleTimeout
  maxTimeout := s.maxTimeout
  maxRequestWorkers := s.maxRequestWorkers

def settings (o : Options) : Settings where
  name := o.name
  idleTimeoutMs := o.idleTimeout.millis64
  maxTimeoutMs := o.maxTimeout.millis64
  maxRequestWorkers := o.maxRequestWorkers

def validate (o : Options) : Except Error (List LogEntry) :=
  checkLimits o.name o.idleTimeout o.maxTimeout o.maxRequestWorkers

def display (o : Options) : String :=
  "BatcherOptions \x7b name: " ++ Text.quoted o.name ++ ", idle_timeout: " ++ o.idleTimeout.display
    ++ ", max_timeout: " ++ o.maxTimeout.display ++ ", max_request_workers: "
    ++ Text.decimalText o.maxRequestWorkers.toNat ++ ", .. \x7d"

end Options

end Coalesce
