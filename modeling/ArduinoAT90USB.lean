import ArduinoAT90USB.Bootloader.Address
import ArduinoAT90USB.Bootloader.Upload
import ArduinoAT90USB.Bootloader.SelfWrite
import ArduinoAT90USB.Bootloader.Detach
import ArduinoAT90USB.Bootloader.FlashReads
import ArduinoAT90USB.Bootloader.ChipErase
import ArduinoAT90USB.Bootloader.PageFill
import ArduinoAT90USB.Bootloader.BlockLengths
import ArduinoAT90USB.Bootloader.Rejected
import ArduinoAT90USB.Core.UsbStream
import ArduinoAT90USB.Core.SerialAvailable
import ArduinoAT90USB.Core.SerialFlush
import ArduinoAT90USB.Core.SerialBegin
import ArduinoAT90USB.Core.DriverEnable
import ArduinoAT90USB.Core.Micros
import ArduinoAT90USB.Core.ToneTimed
import ArduinoAT90USB.Core.LineState
import ArduinoAT90USB.Core.ParseInt
import ArduinoAT90USB.Core.WStringRun
import ArduinoAT90USB.Core.WStringFailure
import ArduinoAT90USB.Core.WStringQuery
import ArduinoAT90USB.Core.WStringGrow
import ArduinoAT90USB.Core.WStringIndex
import ArduinoAT90USB.Core.WStringSlice
import ArduinoAT90USB.Core.WStringOrder
import ArduinoAT90USB.Core.StreamFind
import ArduinoAT90USB.Core.ReadString
import ArduinoAT90USB.Core.Delay
import ArduinoAT90USB.Core.WMath
import ArduinoAT90USB.Core.Pwm
import ArduinoAT90USB.Core.PulseIn
import ArduinoAT90USB.Library.KeyboardLayout
import ArduinoAT90USB.Library.TwiBuffers
import ArduinoAT90USB.Library.TwiHonest
import ArduinoAT90USB.Library.WireWrite
import ArduinoAT90USB.Library.SoftwareSerial
import ArduinoAT90USB.Library.Servo
import ArduinoAT90USB.Library.ServoAngle
import ArduinoAT90USB.Library.ServoView
import ArduinoAT90USB.Library.Stepper
import ArduinoAT90USB.Usb.HidReport
import ArduinoAT90USB.Library.TwiSession
import ArduinoAT90USB.Core.CdcReturns
import ArduinoAT90USB.Usb.ControlComplete
import ArduinoAT90USB.Usb.HidEnumerate
